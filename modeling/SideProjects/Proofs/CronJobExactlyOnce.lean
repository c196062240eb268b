import SideProjects.Proofs.CronJobOnce
import SideProjects.Proofs.CronJobWebhook

/-!
# Every scheduled time exactly once

Over a run that starts without children, every child is a Job the controller has created, for an
activation the clock has reached (`Own`). So a reconcile that is `Prompt`, which comes between an
activation and the next and whose calls go well, finds a child of that activation, or creates one:
no other Job can have its name. With what is known of the second Job for one time, there is exactly
one for every activation that is met by such a reconcile (`run_exactlyOnce`).
-/

namespace SideProjects

namespace CronJobController

variable {env : Env} {cronJob : CronJob} {A : Set Time} {c c' : Cluster} {script : Script}

/-! ## Where the children come from -/

/-- The controller has created the children, for activations that are over. -/
structure Own (env : Env) (cronJob : CronJob) (A : Set Time) (c : Cluster) : Prop where
  made : ∀ job ∈ c.created, ∃ t ∈ A, cronJob.creationTimestamp < t ∧ t ≤ c.clock ∧
    constructJobForCronJob env cronJob t = .ok job
  jobs : ∀ job ∈ c.jobs, ∃ old ∈ c.created, Became old job

theorem Own.evolve {gone : String → Prop} (h : Own env cronJob A c) (he : Evolves gone c c') :
    Own env cronJob A c' where
  made := by
    rw [he.created, he.clock]
    exact h.made
  jobs job hjob := by
    obtain ⟨was, hwas, hb⟩ := he.old hjob
    obtain ⟨old, hold, hb'⟩ := h.jobs was hwas
    exact ⟨old, by rwa [he.created], hb'.trans hb⟩

theorem Own.advance (h : Own env cronJob A c) (now : Time) : Own env cronJob A (c.advance now) where
  made job hjob := by
    obtain ⟨t, ht, hlt, hle, hj⟩ := h.made job hjob
    exact ⟨t, ht, hlt, le_trans hle (le_max_left _ _), hj⟩
  jobs := h.jobs

theorem Own.create (h : Own env cronJob A c) {job : Job} (hname : ¬ c.has job.name) {t : Time}
    (ht : t ∈ A) (hlt : cronJob.creationTimestamp < t) (hle : t ≤ c.clock)
    (hj : constructJobForCronJob env cronJob t = .ok job) :
    Own env cronJob A (c.create job hname) where
  made other ho := by
    rcases List.mem_append.mp ho with ho | ho
    · exact h.made other ho
    · rw [List.mem_singleton.mp ho]
      exact ⟨t, ht, hlt, hle, hj⟩
  jobs other ho := by
    rcases List.mem_append.mp ho with ho | ho
    · obtain ⟨old, hold, hb⟩ := h.jobs other ho
      exact ⟨old, List.mem_append_left _ hold, hb⟩
    · rw [List.mem_singleton.mp ho]
      exact ⟨job, List.mem_append_right _ (.head _), .refl job⟩

/-- The scheduled time of a child is an activation, and its Job has been created. -/
theorem Own.scheduledAt (h : Own env cronJob A c) (hA : Activations env cronJob A) {job : Job}
    (hjob : job ∈ c.jobs) : ∃ t ∈ A, cronJob.creationTimestamp < t ∧ t ≤ c.clock ∧
      scheduledAt env job = some t ∧ ∃ made ∈ c.created, CronJobController.scheduledAt env made = some t ∧
        job.name = made.name ∧ constructJobForCronJob env cronJob t = .ok made := by
  obtain ⟨made, hmade, hb⟩ := h.jobs job hjob
  obtain ⟨t, ht, hlt, hle, hj⟩ := h.made made hmade
  have hat := scheduledAt_construct hA ht hj
  exact ⟨t, ht, hlt, hle, by rw [hb.scheduledAt_eq, hat], made, hmade, hat, hb.name, hj⟩

theorem note_mostRecentTime_cases (env : Env) (children : Children) (job : Job) :
    (children.note env job).mostRecentTime = children.mostRecentTime ∨
      (children.note env job).mostRecentTime = scheduledAt env job := by
  unfold Children.note scheduledAt
  generalize getScheduledTimeForJob env job = scheduled
  rcases scheduled with err | _ | time
  · exact .inl rfl
  · exact .inl rfl
  · dsimp only
    split
    · exact .inr rfl
    · split_ifs
      · exact .inr rfl
      · exact .inl rfl

/-- `mostRecentTime` is the scheduled time of some child. -/
theorem mostRecentTime_attained {childJobs : List Job} {t : Time}
    (h : (classify env childJobs).mostRecentTime = some t) :
    ∃ job ∈ childJobs, scheduledAt env job = some t := by
  revert t
  refine List.foldlRecOn (motive := fun children : Children => ∀ {t}, children.mostRecentTime = some t →
    ∃ job ∈ childJobs, scheduledAt env job = some t) childJobs _ (by rintro t ⟨⟩) ?_
  intro children ih job hjob t ht
  rcases note_mostRecentTime_cases env (children.put job) job with hnote | hnote <;> rw [hnote] at ht
  · rw [put_mostRecentTime] at ht
    exact ih ht
  · exact ⟨job, hjob, ht⟩

/-- A run that is due is later than the creation of the CronJob. -/
theorem Own.creation_lt (h : Own env cronJob A (c.listed script)) (hA : Activations env cronJob A)
    {missedRun : Time} (hdue : script.due env cronJob c = some missedRun) :
    cronJob.creationTimestamp < missedRun := by
  obtain ⟨-, -, -, hlast⟩ := dueRun_spec hA.next hdue
  rcases hm : (classify env (c.listed script).jobs).mostRecentTime with _ | m <;> rw [hm] at hlast
  · exact hlast
  · obtain ⟨job, hjob, hat⟩ := mostRecentTime_attained hm
    obtain ⟨t, -, hlt, -, hat', -⟩ := h.scheduledAt hA hjob
    obtain rfl : m = t := Option.some.inj (hat.symm.trans hat')
    exact lt_trans hlt hlast

theorem reconcile_own (hA : Activations env cronJob A) (h : Own env cronJob A c) (script : Script) :
    Own env cronJob A (reconcile env cronJob script ⟨c, []⟩).2.cluster := by
  have hlisted : Own env cronJob A (c.listed script) := h.evolve (evolves_listed c script)
  cases reconcile_spec env cronJob script c with
  | unlisted evolves => exact h.evolve evolves
  | failed evolves => exact hlisted.evolve evolves
  | idle _ _ _ evolves => exact (hlisted.advance _).evolve evolves
  | @due w r _ _ s missedRun _ hdue hnow evolves _ _ started =>
    obtain ⟨hmem, hle, -, -⟩ := dueRun_spec hA.next hdue
    have hw : Own env cronJob A w.cluster := (hlisted.advance s).evolve evolves
    have hclock : missedRun ≤ w.cluster.clock := by
      rw [evolves.clock]
      exact le_trans (le_trans hle hnow) (le_max_right _ _)
    cases started with
    | given_up evolves' => exact hw.evolve evolves'
    | tried evolves' _ _ _ construct hcluster _ =>
      obtain ⟨-, hr⟩ | ⟨-, hname, hr⟩ := hcluster <;> rw [hr]
      · exact hw.evolve evolves'
      · exact (hw.evolve evolves').create hname hmem (hlisted.creation_lt hA hdue)
          (by rwa [evolves'.clock]) construct

theorem step_own (hA : Activations env cronJob A) (h : Own env cronJob A c) (move : Move) :
    Own env cronJob A (step env cronJob c move) := by
  cases move with
  | update name status => exact h.evolve (evolves_update c name status)
  | clock t => exact h.advance t
  | reconcile script => exact reconcile_own hA h script

theorem run_own (hA : Activations env cronJob A) (h : Own env cronJob A c) (moves : List Move) :
    Own env cronJob A (run env cronJob c moves) :=
  List.foldlRecOn moves (step env cronJob) h fun _ h move _ => step_own hA h move

/-! ## A prompt reconcile -/

/-- The CronJob runs at the times of `A`: nothing in its spec is in the way, and no two activations
fall into one second. -/
structure Runnable (env : Env) (cronJob : CronJob) (A : Set Time) : Prop where
  parses : ∃ next, env.parseStandard cronJob.schedule = .ok next
  resumed : cronJob.suspend ≠ some true
  no_deadline : cronJob.startingDeadlineSeconds = none
  referred : ∀ job, env.setControllerReference cronJob job = .ok ()
  epoch : 0 ≤ Time.unix cronJob.creationTimestamp
  seconds : ∀ t ∈ A, ∀ u ∈ A, Time.unix t = Time.unix u → t = u

/-- A reconcile that comes after the activation `a` and before the next, and whose calls go well. Not
too many runs have been missed since the last scheduled time. -/
structure Prompt (env : Env) (cronJob : CronJob) (A : Set Time) (c : Cluster) (script : Script)
    (a : Time) : Prop where
  cleansUp : script.CleansUp
  deleteActive : ∀ i, (script.deleteActive i).outcome ≠ .failed
  create : script.create.outcome = .ok
  latest : IsGreatest {b | b ∈ A ∧ b ≤ script.nowSchedule} a
  few : (missedRuns A ((classify env (c.listed script).jobs).mostRecentTime.getD
    cronJob.creationTimestamp) script.nowSchedule).ncard ≤ 100

theorem delete_failed {w : World} {job : Job} {tick : Tick} (h : (w.delete job tick).1 = .failed) :
    tick.outcome = .failed := by
  unfold World.delete at h
  dsimp only at h
  split_ifs at h with hf hh
  exact hf

theorem deleteActive_ok {ticks : ℕ → Tick} (hok : ∀ i, (ticks i).outcome ≠ .failed) :
    ∀ (i : ℕ) (jobs : List Job) (w : World), (deleteActive ticks i jobs w).1 = true
  | _, [], _ => rfl
  | i, job :: jobs, w => by
    unfold deleteActive
    split
    · rename_i w₁ hr
      exact absurd (delete_failed (by rw [hr])) (hok i)
    · exact deleteActive_ok hok (i + 1) jobs _

/-- If its calls go well, the start of a run creates the Job, unless there is one of its name. -/
theorem startRun_creates (hdel : ∀ i, (script.deleteActive i).outcome ≠ .failed)
    (hok : script.create.outcome = .ok) {missedRun : Time} {job : Job}
    (hj : constructJobForCronJob env cronJob missedRun = .ok job) (activeJobs : List Job)
    (scheduledResult : Result) (w : World) :
    let r := (startRun env cronJob script activeJobs missedRun scheduledResult w).2.cluster
    job ∈ r.created ∨ ∃ other ∈ r.jobs, other.name = job.name := by
  have hdeleted : (if cronJob.concurrencyPolicy = .replaceConcurrent then
      CronJobController.deleteActive script.deleteActive 0 activeJobs w else (true, w)).1 = true := by
    split_ifs
    · exact deleteActive_ok hdel _ _ _
    · rfl
  unfold startRun
  dsimp only
  generalize (if cronJob.concurrencyPolicy = .replaceConcurrent then
    CronJobController.deleteActive script.deleteActive 0 activeJobs w else (true, w)) = r at hdeleted
  obtain ⟨deleted, w₁⟩ := r
  obtain rfl : deleted = true := hdeleted
  simp only [Bool.not_true, Bool.false_eq_true, if_false, hj, World.create, hok, if_true, World.log]
  by_cases hhas : (w₁.pass script.create).cluster.has job.name = true
  · obtain ⟨other, hother, hname⟩ := List.any_eq_true.mp hhas
    simp only [hhas, dif_pos]
    exact .inr ⟨other, hother, by simpa using hname⟩
  · simp only [hhas]
    exact .inl (List.mem_append_right _ (.head _))

theorem schedule_due {children : Children} {missedRun : Time} (w : World)
    (hdue : dueRun env cronJob children.mostRecentTime script.nowSchedule script.nowDeadline =
      some missedRun) :
    ∃ res w', schedule env cronJob script children w =
      startRun env cronJob script children.activeJobs missedRun res w' := by
  unfold dueRun at hdue
  unfold schedule
  split_ifs at hdue with hs
  rw [if_neg hs]
  simp only [World.now, statusOf]
  rcases hnext : getNextSchedule env cronJob children.mostRecentTime script.nowSchedule
    with err | ⟨missed, nextRun⟩ <;> rw [hnext] at hdue
  · cases hdue
  dsimp only at hdue ⊢
  split_ifs at hdue with hnot
  rw [not_or] at hnot
  obtain rfl : missed = missedRun := Option.some.inj hdue
  obtain ⟨t, ht⟩ := checkDeadline_spec cronJob missed script.nowDeadline
    ⟨((w.cluster.advance script.nowSchedule).advance script.nowResult).advance script.nowLog, w.calls⟩
  rw [if_neg hnot.1]
  simp only [ht, hnot.2]
  exact ⟨_, _, rfl⟩

theorem unix_of_creation_lt {creation t : Int} (h : 0 ≤ Time.unix creation) (hlt : creation < t) :
    0 ≤ Time.unix t ∧ t ≠ 0 := by
  unfold Time.unix at h ⊢
  exact ⟨by omega, fun hzero => by subst hzero; omega⟩

/-- The activation is due, unless a child has it. -/
theorem Prompt.due (hA : Activations env cronJob A) (hruns : Runnable env cronJob A) {a : Time}
    (h : Prompt env cronJob A c script a) (ha : cronJob.creationTimestamp < a)
    (hlast : (classify env (c.listed script).jobs).mostRecentTime.getD cronJob.creationTimestamp < a) :
    script.due env cronJob c = some a := by
  obtain ⟨next, hparse⟩ := hruns.parses
  have hnext := hA.next next hparse
  have hearliest : ∀ last, earliestTime cronJob last script.nowSchedule =
      last.getD cronJob.creationTimestamp := by
    intro last
    rw [earliestTime, hruns.no_deadline]
  have hle : a ≤ script.nowSchedule := h.latest.1.2
  rw [Script.due, dueRun, if_neg hruns.resumed, getNextSchedule_eq hparse, hearliest,
    if_neg (not_lt.mpr (le_trans hlast.le hle))]
  rcases lastMissedRun_cases hnext 100 0
      ((classify env (c.listed script).jobs).mostRecentTime.getD cronJob.creationTimestamp) with
    ⟨-, missed, hm, hcase⟩ | ⟨hmany, -⟩
  swap
  · exact absurd h.few (not_le.mpr hmany)
  have hmem : a ∈ missedRuns A ((classify env (c.listed script).jobs).mostRecentTime.getD
      cronJob.creationTimestamp) script.nowSchedule := ⟨h.latest.1.1, hlast, hle⟩
  obtain ⟨hempty, -⟩ | hgreatest := hcase
  · rw [hempty] at hmem
    exact hmem.elim
  · obtain rfl : missed = a :=
      le_antisymm (h.latest.2 ⟨hgreatest.1.1, hgreatest.1.2.2⟩) (hgreatest.2 hmem)
    rw [hm]
    dsimp only [Option.elim]
    rw [if_neg]
    rintro (hzero | hlate)
    · exact (unix_of_creation_lt hruns.epoch ha).2 (by simpa [Time.isZero] using hzero)
    · rw [tooLate, hruns.no_deadline] at hlate
      cases hlate

/-- The Jobs of two activations do not share a name. -/
theorem Runnable.eq_of_name (hruns : Runnable env cronJob A) {t u : Time} (ht : t ∈ A) (hu : u ∈ A)
    (htc : cronJob.creationTimestamp < t) (huc : cronJob.creationTimestamp < u) {job job' : Job}
    (hj : constructJobForCronJob env cronJob t = .ok job)
    (hj' : constructJobForCronJob env cronJob u = .ok job') (hname : job.name = job'.name) : t = u := by
  have htunix := (unix_of_creation_lt hruns.epoch htc).1
  have huunix := (unix_of_creation_lt hruns.epoch huc).1
  rw [CronJobWebhook.name_construct hj htunix, CronJobWebhook.name_construct hj' huunix,
    String.append_right_inj, String.ofList_inj] at hname
  have hdigits := congrArg (Nat.ofDigitChars 10 · 0) hname
  simp only [Nat.ofDigitChars_toDigits (show 1 < 10 by decide) (show 10 ≤ 10 by decide)] at hdigits
  refine hruns.seconds t ht u hu ?_
  rw [← Int.toNat_of_nonneg htunix, ← Int.toNat_of_nonneg huunix, hdigits]

/-- What has been created stays on the list of what has. -/
theorem created_step (move : Move) (c : Cluster) :
    c.created ⊆ (step env cronJob c move).created := by
  cases move with
  | update => exact List.Subset.refl _
  | clock => exact List.Subset.refl _
  | reconcile script =>
    have hlisted := (evolves_listed c script).created
    show c.created ⊆ (reconcile env cronJob script ⟨c, []⟩).2.cluster.created
    cases reconcile_spec env cronJob script c with
    | unlisted evolves => rw [evolves.created]; exact List.Subset.refl _
    | failed evolves => rw [evolves.created, hlisted]; exact List.Subset.refl _
    | @idle _ _ _ t _ _ _ evolves =>
      rw [evolves.created, show ((c.listed script).advance t).created = _ from hlisted]
      exact List.Subset.refl _
    | @due w _ _ _ t _ _ _ _ evolves _ _ started =>
      have hw : w.cluster.created = c.created := evolves.created.trans hlisted
      cases started with
      | given_up evolves' => rw [evolves'.created, hw]; exact List.Subset.refl _
      | tried evolves' _ _ _ _ hcluster _ =>
        obtain ⟨-, hr⟩ | ⟨-, hname, hr⟩ := hcluster
        · rw [hr, evolves'.created, hw]
          exact List.Subset.refl _
        · rw [hr]
          show c.created ⊆ _ ++ _
          rw [evolves'.created, hw]
          exact List.subset_append_left _ _

theorem created_run (moves : List Move) (c : Cluster) :
    c.created ⊆ (run env cronJob c moves).created :=
  List.foldlRecOn (motive := fun c' => c.created ⊆ c'.created) moves (step env cronJob)
    (List.Subset.refl _) fun c' h move _ => List.Subset.trans h (created_step move c')

/-- After a prompt reconcile, the activation has its Job. -/
theorem reconcile_prompt (hA : Activations env cronJob A) (hruns : Runnable env cronJob A)
    (h : Own env cronJob A c) (hclock : Onward c (.reconcile script)) {a : Time}
    (hprompt : Prompt env cronJob A c script a) (ha : cronJob.creationTimestamp < a) :
    ∃ job ∈ (reconcile env cronJob script ⟨c, []⟩).2.cluster.created, scheduledAt env job = some a := by
  have hmem : a ∈ A := hprompt.latest.1.1
  have hown := reconcile_own hA h script
  have hlisted : Own env cronJob A (c.listed script) := h.evolve (evolves_listed c script)
  have hgrow : c.created ⊆ (reconcile env cronJob script ⟨c, []⟩).2.cluster.created :=
    created_step (.reconcile script) c
  rcases lt_or_ge ((classify env (c.listed script).jobs).mostRecentTime.getD
    cronJob.creationTimestamp) a with hlast | hlast
  · -- the run is due, and only the Job of the same activation can be in its way
    have hdue := hprompt.due hA hruns ha hlast
    obtain ⟨w, status, calls, hr, -⟩ := reconcile_eq_schedule env cronJob hprompt.cleansUp c
    obtain ⟨res, w', hstart⟩ := schedule_due w hdue
    obtain ⟨job, hj⟩ : ∃ job, constructJobForCronJob env cronJob a = .ok job := by
      unfold constructJobForCronJob
      simp only [hruns.referred]
      exact ⟨_, rfl⟩
    have hcreates := startRun_creates hprompt.deleteActive hprompt.create hj
      (classify env (c.listed script).jobs).activeJobs res w'
    rw [← hstart, ← hr] at hcreates
    obtain hcreated | ⟨other, hother, hname⟩ := hcreates
    · exact ⟨job, hcreated, scheduledAt_construct hA hmem hj⟩
    · obtain ⟨t, ht, hlt, -, -, made, hmade, hat, hname', hj'⟩ := hown.scheduledAt hA hother
      obtain rfl : t = a := hruns.eq_of_name ht hmem hlt ha hj' hj (hname'.symm.trans hname)
      exact ⟨made, hmade, hat⟩
  · -- the latest child is of this activation
    rcases hm : (classify env (c.listed script).jobs).mostRecentTime with _ | m <;> rw [hm] at hlast
    · exact absurd ha (not_lt.mpr hlast)
    obtain ⟨job, hjob, hat⟩ := mostRecentTime_attained hm
    obtain ⟨t, ht, -, hle, hat', made, hmade, hat'', -⟩ := hlisted.scheduledAt hA hjob
    obtain rfl : m = t := Option.some.inj (hat.symm.trans hat')
    rw [(evolves_listed c script).clock] at hle
    obtain rfl : m = a := le_antisymm (hprompt.latest.2 ⟨ht, le_trans hle hclock⟩) hlast
    rw [(evolves_listed c script).created] at hmade
    exact ⟨made, hgrow hmade, hat''⟩

/-- In a run that starts without children and spares the children of the latest activations, an
activation that is met by a prompt reconcile has exactly one Job in the end. -/
theorem run_exactlyOnce (hA : Activations env cronJob A) (hruns : Runnable env cronJob A)
    (hjobs : c.jobs = []) (hcreated : c.created = []) {moves : List Move}
    (hclock : Along (step env cronJob) Onward c moves)
    (hremembers : Along (step env cronJob) (Remembers env cronJob A) c moves)
    {before after : List Move} (hmoves : moves = before ++ .reconcile script :: after) {a : Time}
    (ha : cronJob.creationTimestamp < a)
    (hprompt : Prompt env cronJob A (run env cronJob c before) script a) :
    ((run env cronJob c moves).created.filter (scheduledAt env · = some a)).length = 1 := by
  have hstart : Own env cronJob A c := ⟨by simp [hcreated], by simp [hjobs]⟩
  have honce : Once env cronJob A (run env cronJob c moves) :=
    (hclock.and hremembers).invariant (fun _ _ hi => step_once hA hi.1 hi.2)
      ⟨by simp [hcreated], by simp [hcreated], by simp [hcreated]⟩
  have hone : ∃ job ∈ (run env cronJob c moves).created, scheduledAt env job = some a := by
    subst hmoves
    have honward : Onward (run env cronJob c before) (.reconcile script) :=
      (along_append.mp hclock).2.1
    obtain ⟨job, hjob, hat⟩ :=
      reconcile_prompt hA hruns (run_own hA hstart before) honward hprompt ha
    refine ⟨job, ?_, hat⟩
    rw [run, List.foldl_append, List.foldl_cons]
    exact created_run after _ hjob
  obtain ⟨job, hjob, hat⟩ := hone
  have hcount := List.nodup_iff_count_le_one.mp honce.distinct (some a)
  rw [List.count, List.countP_map, List.countP_eq_length_filter] at hcount
  simp only [Function.comp_def, beq_eq_decide] at hcount
  refine le_antisymm hcount (List.length_pos_of_mem (List.mem_filter.mpr ⟨hjob, ?_⟩))
  simpa using hat

theorem runnable_hourly (policy : ConcurrencyPolicy) (limit : Option Int32) :
    Runnable hourly (report policy limit) fullHours where
  parses := ⟨_, rfl⟩
  resumed := by rintro ⟨⟩
  no_deadline := rfl
  referred _ := rfl
  epoch := show 0 ≤ Time.unix (newYear - 60000000000) by decide
  seconds := by
    rintro _ ⟨k, rfl⟩ _ ⟨l, rfl⟩ hunix
    unfold Time.unix hour at hunix
    rw [show k = l by omega]

/-- The hourly CronJob at midnight, just after it was created. -/
theorem prompt_hourly (policy : ConcurrencyPolicy) (limit : Option Int32) :
    Prompt hourly (report policy limit) fullHours .start (undisturbed newYear) newYear where
  cleansUp := ⟨rfl, rfl, rfl⟩
  deleteActive _ := Outcome.noConfusion
  create := rfl
  latest := ⟨⟨⟨newYear / hour, by decide⟩, le_refl _⟩, fun _ hb => hb.2⟩
  few := by
    show (missedRuns fullHours (newYear - 60000000000) newYear).ncard ≤ 100
    rw [missedRuns_eq_insert isLeast_hourly (by decide), missedRuns_eq_empty isLeast_hourly (by decide)]
    simp

theorem run_exactlyOnce_hourly :
    let moves : List Move := [.reconcile (undisturbed newYear), .reconcile (undisturbed newYear)]
    ((run hourly (report .allowConcurrent (some 1)) .start moves).created.filter
      (scheduledAt hourly · = some newYear)).length = 1 := by
  intro moves
  have hclock : Along (step hourly (report .allowConcurrent (some 1))) Onward .start moves := by
    decide +kernel
  have hremembers : Along (step hourly (report .allowConcurrent (some 1)))
      (Remembers hourly (report .allowConcurrent (some 1)) fullHours) .start moves :=
    ⟨remembers_of_length_le (by decide +kernel), remembers_of_length_le (by decide +kernel), trivial⟩
  have hmoves : moves = [] ++ .reconcile (undisturbed newYear) :: [.reconcile (undisturbed newYear)] := rfl
  exact run_exactlyOnce (activations_hourly _ _) (runnable_hourly _ _) rfl rfl hclock hremembers hmoves
    (by decide) (prompt_hourly _ _)

end CronJobController

end SideProjects
