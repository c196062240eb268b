import SideProjects.Proofs.CronJobOnce

/-!
# What a reconcile starts, and when it wakes up again

A reconcile has at most one `Create` among its calls, for the run that is due, so that what is known
of a due run is known of the Job (`reconcile_creates`).

Two clocks can go wrong. A starting deadline is turned into nanoseconds, and from 2^63 of these on
it wraps around (`exactDeadline_iff`). And the delay until the next run is counted from a later
reading of the clock than the next run itself, which may be over by then (`requeueAfter_pos_iff`).
-/

namespace SideProjects

namespace CronJobController

/-! ## The Job a reconcile creates -/

section Create

variable {env : Env} {cronJob : CronJob} {script : Script} {c : Cluster}

/-- The Jobs that `Create` is called for. -/
def creations (calls : List Call) : List Job :=
  calls.filterMap fun call =>
    match call with
    | .create job _ => some job
    | _ => none

theorem Deletes.creations_eq {jobs : List Job} {calls : List Call} (h : Deletes jobs calls) :
    creations calls = [] := by
  refine List.filterMap_eq_nil_iff.mpr fun call hcall => ?_
  obtain ⟨job, -, outcome, rfl⟩ := h call hcall
  rfl

theorem creations_append (l l' : List Call) : creations (l ++ l') = creations l ++ creations l' :=
  List.filterMap_append

/-- There is at most one `Create`, and only for a run that is due. -/
theorem Issued.creations_cases {calls : List Call} (h : Issued env cronJob script c calls) :
    creations calls = [] ∨
      ∃ missedRun job, creations calls = [job] ∧ .list (c.listed script).jobs ∈ calls ∧
        script.due env cronJob c = some missedRun ∧
        constructJobForCronJob env cronJob missedRun = .ok job := by
  cases h with
  | unlisted => exact .inl rfl
  | failed => exact .inl rfl
  | @cleaned _ old active _ attempts deletes =>
    left
    rw [creations_append, creations_append, attempts.deletes.creations_eq, deletes.creations_eq]
    rfl
  | @created _ old active missedRun job _ _ hdue attempts deletes _ construct =>
    refine .inr ⟨missedRun, job, ?_, .head _, hdue, construct⟩
    rw [creations_append, creations_append, creations_append, attempts.deletes.creations_eq,
      deletes.creations_eq]
    rfl

/-- The annotation of the template, if it has one, is overwritten. -/
theorem annotation_construct {missedRun : Time} {job : Job}
    (h : constructJobForCronJob env cronJob missedRun = .ok job) :
    job.annotations scheduledTimeAnnotation = some (env.format missedRun) := by
  unfold constructJobForCronJob at h
  dsimp only at h
  split at h
  · cases h
  · cases h
    exact Function.update_self scheduledTimeAnnotation _ cronJob.templateAnnotations

theorem note_of_scheduledAt_none {children : Children} {job : Job}
    (h : scheduledAt env job = none) : children.note env job = children := by
  unfold scheduledAt at h
  unfold Children.note
  generalize getScheduledTimeForJob env job = scheduled at h ⊢
  rcases scheduled with err | _ | time
  · rfl
  · rfl
  · simp [Except.toOption] at h

theorem classify_mostRecentTime_none {childJobs : List Job}
    (h : ∀ job ∈ childJobs, scheduledAt env job = none) :
    (classify env childJobs).mostRecentTime = none := by
  refine List.foldlRecOn (motive := fun children : Children => children.mostRecentTime = none)
    childJobs _ rfl fun children hnone job hjob => ?_
  rw [note_of_scheduledAt_none (h job hjob), put_mostRecentTime, hnone]

/-- A reconcile calls `Create` at most once, never for a suspended CronJob, and for a Job that is
annotated with the latest activation, which is later than any scheduled time of the children, and
than the creation of the CronJob if they have none. -/
theorem reconcile_creates {A : Set Time}
    (hnext : ∀ next, env.parseStandard cronJob.schedule = .ok next →
      ∀ t, IsLeast {a | a ∈ A ∧ t < a} (next t)) (script : Script) (c : Cluster) :
    let calls := (reconcile env cronJob script ⟨c, []⟩).2.calls
    (creations calls).length ≤ 1 ∧
      ∀ job ∈ creations calls, cronJob.suspend ≠ some true ∧
        ∃ childJobs T, .list childJobs ∈ calls ∧
          job.annotations scheduledTimeAnnotation = some (env.format T) ∧
          T ∈ A ∧ T ≤ script.nowSchedule ∧ (∀ a ∈ A, a ∉ Set.Ioc T script.nowSchedule) ∧
          (∀ child ∈ childJobs, ∀ t, scheduledAt env child = some t → t < T) ∧
          ((∀ child ∈ childJobs, scheduledAt env child = none) → cronJob.creationTimestamp < T) := by
  intro calls
  have hissued : Issued env cronJob script c calls := reconcile_issued env cronJob script c
  rcases hissued.creations_cases with hnil | ⟨T, job, hone, hlist, hdue, hconstruct⟩
  · rw [hnil]
    exact ⟨Nat.zero_le 1, by simp⟩
  rw [hone]
  refine ⟨le_refl _, fun job' hjob => ?_⟩
  obtain rfl := List.mem_singleton.mp hjob
  obtain ⟨hT, hle, hlatest, hlast⟩ := dueRun_spec hnext hdue
  refine ⟨not_suspended_of_due hdue, _, T, hlist, annotation_construct hconstruct, hT, hle,
    fun a ha hmem => ?_, fun child hchild t ht => ?_, fun hnone => ?_⟩
  · exact absurd (hlatest a ha hmem.2) (not_le.mpr hmem.1)
  · obtain ⟨m, hm, hle⟩ := classify_mostRecentTime hchild ht
    rw [hm] at hlast
    exact lt_of_le_of_lt hle hlast
  · rwa [classify_mostRecentTime_none hnone] at hlast

end Create

/-- A minute after it was created, the CronJob starts its run of midnight. -/
theorem reconcile_creates_hourly :
    let calls := (reconcile hourly (report .allowConcurrent none) (undisturbed newYear)
      ⟨.start, []⟩).2.calls
    (creations calls).map Job.name = ["report-1735689600"] ∧ (creations calls).length ≤ 1 :=
  ⟨by decide +kernel, (reconcile_creates (activations_hourly _ _).next _ _).1⟩

/-! ## The starting deadline -/

/-- A deadline of `seconds` counts as it does in exact arithmetic. -/
structure ExactDeadline (cronJob : CronJob) (seconds : Int64) (now missedRun : Time) : Prop where
  earliest : ∀ lastScheduleTime, earliestTime cronJob lastScheduleTime now =
    max (lastScheduleTime.getD cronJob.creationTimestamp) (now - seconds.toInt * 1000000000)
  not_past : ∀ lastScheduleTime, lastScheduleTime.getD cronJob.creationTimestamp ≤ now →
    earliestTime cronJob lastScheduleTime now ≤ now
  late : ∀ later, tooLate cronJob missedRun later = true ↔
    missedRun + seconds.toInt * 1000000000 < later

section Deadline

variable {cronJob : CronJob} {seconds : Int64}

theorem earliestTime_eq_max (hseconds : cronJob.startingDeadlineSeconds = some seconds)
    (lastScheduleTime : Option Time) (now : Time) :
    earliestTime cronJob lastScheduleTime now =
      max (lastScheduleTime.getD cronJob.creationTimestamp)
        (now + (-(seconds.toInt * 1000000000)).bmod (2 ^ 64)) := by
  have hwrap : (-second * seconds).toInt = (-(seconds.toInt * 1000000000)).bmod (2 ^ 64) := by
    rw [Int64.toInt_mul, show (-second).toInt = -1000000000 from rfl, Int.neg_mul, Int.mul_comm]
  unfold earliestTime
  simp only [hseconds, Time.add, hwrap]
  split_ifs with h
  · exact (max_eq_right (le_of_lt h)).symm
  · exact (max_eq_left (not_lt.mp h)).symm

theorem tooLate_iff (hseconds : cronJob.startingDeadlineSeconds = some seconds)
    (missedRun later : Time) : tooLate cronJob missedRun later = true ↔
      missedRun + (seconds.toInt * 1000000000).bmod (2 ^ 64) < later := by
  have hwrap : (seconds * second).toInt = (seconds.toInt * 1000000000).bmod (2 ^ 64) := by
    rw [Int64.toInt_mul]
    rfl
  simp only [tooLate, hseconds, Time.add, hwrap, decide_eq_true_eq]

/-- A deadline counts right, whatever the times, if and only if it fits a `Duration`. -/
theorem exactDeadline_iff (hseconds : cronJob.startingDeadlineSeconds = some seconds)
    (hadmitted : 0 ≤ seconds) (now missedRun : Time) :
    ExactDeadline cronJob seconds now missedRun ↔ seconds.toInt * 1000000000 < 2 ^ 63 := by
  have hnonneg : 0 ≤ seconds.toInt := Int64.le_iff_toInt_le.mp hadmitted
  constructor
  · intro h
    by_contra hbig
    -- at the exact bound the deadline has not passed, but what it wraps around to has
    have hwrap : (seconds.toInt * 1000000000).bmod (2 ^ 64) < seconds.toInt * 1000000000 := by
      rw [Int.bmod_def]
      omega
    have hlate := (h.late (missedRun + seconds.toInt * 1000000000)).mp
      ((tooLate_iff hseconds _ _).mpr (Int.add_lt_add_left hwrap missedRun))
    exact lt_irrefl _ hlate
  · intro hfits
    have hexact : (seconds.toInt * 1000000000).bmod (2 ^ 64) = seconds.toInt * 1000000000 :=
      Int.bmod_eq_of_le (by omega) (by omega)
    have hneg : (-(seconds.toInt * 1000000000)).bmod (2 ^ 64) = -(seconds.toInt * 1000000000) :=
      Int.bmod_eq_of_le (by omega) (by omega)
    refine ⟨fun last => ?_, fun last hle => ?_, fun later => ?_⟩
    · rw [earliestTime_eq_max hseconds, hneg, Int.sub_eq_add_neg]
    · rw [earliestTime_eq_max hseconds, hneg]
      exact max_le hle (add_le_of_nonpos_right (Int.neg_nonpos_of_nonneg (by omega)))
    · rw [tooLate_iff hseconds, hexact]

end Deadline

/-- A deadline of a day. -/
theorem exactDeadline_iff_day :
    let cronJob := { report .allowConcurrent none with startingDeadlineSeconds := some 86400 }
    earliestTime cronJob (some (newYear - 48 * hour)) newYear = newYear - 24 * hour ∧
      (ExactDeadline cronJob 86400 newYear newYear ↔ (86400 : Int) * 1000000000 < 2 ^ 63) :=
  ⟨by decide +kernel, exactDeadline_iff rfl (by decide) newYear newYear⟩

/-- After 292 years the deadline wraps around: the runs to look for are those of 292 years ahead,
and every run is too late the moment it falls due. -/
theorem deadline_wraps :
    let cronJob := { report .allowConcurrent none with startingDeadlineSeconds := some 9223372037 }
    earliestTime cronJob none newYear = newYear + 9223372036709551616 ∧
      tooLate cronJob newYear newYear = true ∧ ¬ ExactDeadline cronJob 9223372037 newYear newYear := by
  refine ⟨by decide +kernel, by decide +kernel, fun h => ?_⟩
  exact absurd ((h.late newYear).mp (by decide +kernel)) (by decide +kernel)

/-! ## The next wake-up -/

theorem sub_pos_iff (t u : Int) : 0 < Time.sub t u ↔ u < t := by
  have hmin : Int64.minValue.toInt = -2 ^ 63 := rfl
  have hmax : Int64.maxValue.toInt = 2 ^ 63 - 1 := rfl
  unfold Time.sub
  rw [Int64.lt_iff_toInt_lt, Int64.toInt_ofInt_of_le (by omega) (by omega), hmin, hmax]
  show 0 < _ ↔ _
  omega

theorem startRun_result (env : Env) (cronJob : CronJob) (script : Script) (activeJobs : List Job)
    (missedRun : Time) (scheduledResult : Result) (w : World) :
    (startRun env cronJob script activeJobs missedRun scheduledResult w).1 = scheduledResult ∨
      (startRun env cronJob script activeJobs missedRun scheduledResult w).1.err ≠ none := by
  unfold startRun
  dsimp only
  generalize (if cronJob.concurrencyPolicy = .replaceConcurrent then
    deleteActive script.deleteActive 0 activeJobs w else (true, w)) = r
  obtain ⟨_ | _, w₁⟩ := r
  · exact .inr (by simp)
  simp only [Bool.not_true, Bool.false_eq_true, if_false]
  rcases constructJobForCronJob env cronJob missedRun with err | job
  · exact .inl rfl
  dsimp only
  rcases w₁.create job script.create with ⟨_ | _, w₂⟩
  · exact .inr (by simp)
  · exact .inl rfl

/-- Every return after `getNextSchedule` that is no error is of `scheduledResult`. -/
theorem schedule_result {env : Env} {cronJob : CronJob} {script : Script} {children : Children}
    {missedRun nextRun : Time} (hsuspend : cronJob.suspend ≠ some true)
    (hschedule : getNextSchedule env cronJob children.mostRecentTime script.nowSchedule =
      .ok (missedRun, nextRun)) (w : World) :
    (schedule env cronJob script children w).1 = ⟨Time.sub nextRun script.nowResult, none⟩ ∨
      (schedule env cronJob script children w).1.err ≠ none := by
  unfold schedule
  simp only [if_neg hsuspend, World.now, statusOf, hschedule]
  by_cases hz : Time.isZero missedRun = true
  · rw [if_pos hz]
    exact .inl rfl
  rw [if_neg hz]
  obtain ⟨t, ht⟩ := checkDeadline_spec cronJob missedRun script.nowDeadline
    ⟨((w.cluster.advance script.nowSchedule).advance script.nowResult).advance script.nowLog, w.calls⟩
  simp only [ht]
  by_cases hl : tooLate cronJob missedRun script.nowDeadline = true
  · rw [if_pos hl]
    exact .inl rfl
  · rw [if_neg hl]
    exact startRun_result _ _ _ _ _ _ _

/-- A reconcile that gets to a schedule and returns no error is woken up again if and only if the
next run is still to come when the delay until then is taken. -/
theorem requeueAfter_pos_iff {env : Env} {cronJob : CronJob} {script : Script} {c : Cluster}
    {next : Time → Time} {missedRun nextRun : Time} (hclean : script.CleansUp)
    (hsuspend : cronJob.suspend ≠ some true)
    (hparse : env.parseStandard cronJob.schedule = .ok next)
    (hschedule : getNextSchedule env cronJob (classify env (c.listed script).jobs).mostRecentTime
      script.nowSchedule = .ok (missedRun, nextRun))
    (herr : (reconcile env cronJob script ⟨c, []⟩).1.err = none) :
    0 < (reconcile env cronJob script ⟨c, []⟩).1.requeueAfter ↔
      script.nowResult < next script.nowSchedule := by
  obtain ⟨w, -, -, hr, -⟩ := reconcile_eq_schedule env cronJob hclean c
  rw [hr] at herr ⊢
  have hnextRun : nextRun = next script.nowSchedule := by
    rw [getNextSchedule_eq hparse] at hschedule
    split_ifs at hschedule
    · cases hschedule
      rfl
    · generalize lastMissedRun _ _ _ _ _ = missed at hschedule
      cases missed with
      | none => cases hschedule
      | some lastMissed =>
        cases hschedule
        rfl
  rw [(schedule_result hsuspend hschedule w).resolve_right (fun h => h herr), sub_pos_iff, hnextRun]

/-- A reconcile at midnight sleeps for an hour. -/
theorem requeueAfter_pos_iff_hourly :
    let cronJob := report .allowConcurrent none
    let r := (reconcile hourly cronJob (undisturbed newYear) ⟨.start, []⟩).1
    r.requeueAfter = 3600000000000 ∧ r.err = none ∧
      (0 < r.requeueAfter ↔ newYear < (newYear / hour + 1) * hour) := by
  intro cronJob r
  have herr : r.err = none := by decide +kernel
  have hschedule : getNextSchedule hourly cronJob none newYear = .ok (newYear, newYear + hour) := rfl
  exact ⟨by decide +kernel, herr, requeueAfter_pos_iff ⟨rfl, rfl, rfl⟩ (by decide) rfl hschedule herr⟩

/-- Midnight comes between the two readings: no run has been missed at the first, the next one is
that of midnight, and at the second there is nothing left to wait for. -/
theorem requeueAfter_lost :
    let cronJob := report .allowConcurrent none
    let script := { undisturbed newYear with nowSchedule := newYear - 1 }
    let r := (reconcile hourly cronJob script ⟨.start, []⟩).1
    [script.nowSchedule, script.nowResult, script.nowLog, script.nowDeadline].Pairwise (· ≤ ·) ∧
      (∀ t : Time, t < (t / hour + 1) * hour) ∧
      getNextSchedule hourly cronJob (classify hourly (Cluster.start.listed script).jobs).mostRecentTime
        script.nowSchedule = .ok (0, newYear) ∧
      r.err = none ∧ ¬ 0 < r.requeueAfter :=
  ⟨by decide, fun t => Int.lt_ediv_add_one_mul_self t (by decide), by decide +kernel,
    by decide +kernel, by decide +kernel⟩

end CronJobController

end SideProjects
