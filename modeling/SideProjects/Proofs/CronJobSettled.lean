import SideProjects.Proofs.CronJobCleanUp
import SideProjects.Proofs.CronJobOnce

/-!
# A reconcile that leaves nothing to do

While nothing happens to the children, a reconcile does no more than the code says: the clean-up
takes away exactly the old Jobs, and the rest of it adds one Job at most. So after a reconcile that
has created a Job, and could delete what it was to, the cluster is `Settled`: the children reach up
to the latest activation, and there are no more finished ones than the limits. Every reconcile that
comes before the next activation then only lists the children and writes the same status
(`run_settles`).
-/

namespace SideProjects

namespace CronJobController

/-- Nothing happens to the Jobs before the call. -/
def Tick.Calm (tick : Tick) : Prop := tick.updates = []

/-- Nothing happens to the Jobs during the reconcile. -/
structure Script.Calm (script : Script) : Prop where
  get : script.get.Calm
  list : script.list.Calm
  updateStatus : script.updateStatus.Calm
  deleteFailed : ∀ i, (script.deleteFailed i).Calm
  deleteSuccessful : ∀ i, (script.deleteSuccessful i).Calm
  deleteActive : ∀ i, (script.deleteActive i).Calm
  create : script.create.Calm

/-- No call to delete a finished Job fails. -/
structure Script.Tidies (script : Script) : Prop where
  deleteFailed : ∀ i, (script.deleteFailed i).outcome ≠ .failed
  deleteSuccessful : ∀ i, (script.deleteSuccessful i).outcome ≠ .failed

/-- The children reach up to the latest activation that is not after `now`, and the finished ones do
not exceed the limits. -/
structure Settled (env : Env) (cronJob : CronJob) (A : Set Time) (jobs : List Job) (now : Time) :
    Prop where
  scheduled : ∀ a ∈ A, a ≤ now →
    a ≤ (classify env jobs).mostRecentTime.getD cronJob.creationTimestamp
  history : ∀ type limit, cronJob.historyLimit type = some limit →
    ((jobs.filter (finishedAs type)).length : Int) ≤ limit.toInt

variable {env : Env} {cronJob : CronJob} {A : Set Time} {script : Script}

/-! ## Calm calls -/

/-- All but the Jobs that have the name of one of these. -/
def without (lost jobs : List Job) : List Job :=
  jobs.filter fun job => lost.all (·.name != job.name)

theorem pass_calm {tick : Tick} (h : tick.Calm) (w : World) : w.pass tick = w := by
  rw [World.pass, h, List.foldl_nil]

theorem delete_calm {tick : Tick} (h : tick.Calm) (w : World) (job : Job) :
    (w.delete job tick).2.cluster.jobs.Sublist w.cluster.jobs ∧
      (tick.outcome ≠ .failed → (w.delete job tick).2.cluster.jobs = without [job] w.cluster.jobs) := by
  have hwithout : without [job] w.cluster.jobs = w.cluster.jobs.filter (·.name != job.name) :=
    List.filter_congr fun other _ => by rw [List.all_cons, List.all_nil, Bool.and_true, bne_comm]
  simp only [World.delete, pass_calm h, hwithout]
  split_ifs with hfailed hhas
  · exact ⟨List.Sublist.refl _, fun hok => absurd hfailed hok⟩
  · exact ⟨List.filter_sublist, fun _ => rfl⟩
  · refine ⟨List.Sublist.refl _, fun _ => (List.filter_eq_self.mpr fun other ho => ?_).symm⟩
    simpa using not_has hhas other ho

theorem without_cons (job : Job) (lost jobs : List Job) :
    without lost (without [job] jobs) = without (job :: lost) jobs := by
  rw [without, without, without, List.filter_filter]
  exact List.filter_congr fun other _ => by
    rw [List.all_cons, List.all_cons, List.all_nil, Bool.and_true, Bool.and_comm]

theorem deleteOld_calm {limit : Int32} {len : ℕ} {ticks : ℕ → Tick} (h : ∀ i, (ticks i).Calm)
    (hok : ∀ i, (ticks i).outcome ≠ .failed) : ∀ (i : ℕ) (jobs : List Job) (w : World),
    (deleteOld limit len ticks i jobs w).cluster.jobs =
      without (surplus limit len i jobs) w.cluster.jobs
  | _, [], w => by simp [deleteOld, surplus, without]
  | i, job :: jobs, w => by
    unfold deleteOld surplus
    split_ifs
    · simp [without]
    · rw [deleteOld_calm h hok, (delete_calm (h i) w job).2 (hok i), without_cons]

theorem cleanUp_calm {limit : Option Int32} {jobs : List Job} {ticks : ℕ → Tick}
    (h : ∀ i, (ticks i).Calm) (hok : ∀ i, (ticks i).outcome ≠ .failed) (w : World) :
    (cleanUp env limit jobs ticks w).cluster.jobs =
      without (doomed env limit jobs) w.cluster.jobs := by
  rcases limit with _ | limit
  · simp [cleanUp, doomed, without]
  · exact deleteOld_calm h hok _ _ _

/-- There is nothing to do for the clean-up. -/
theorem cleanUp_nil {limit : Option Int32} {jobs : List Job} (h : doomed env limit jobs = [])
    (ticks : ℕ → Tick) (w : World) : cleanUp env limit jobs ticks w = w := by
  rcases limit with _ | limit
  · rfl
  · unfold doomed at h
    unfold cleanUp
    dsimp only at h ⊢
    generalize env.sortSlice startedBefore jobs = sorted at h ⊢
    rcases sorted with _ | ⟨job, jobs⟩
    · rfl
    · unfold surplus at h
      unfold deleteOld
      split_ifs at h ⊢
      rfl

theorem deleteActive_calm {ticks : ℕ → Tick} (h : ∀ i, (ticks i).Calm) :
    ∀ (i : ℕ) (jobs : List Job) (w : World),
      (deleteActive ticks i jobs w).2.cluster.jobs.Sublist w.cluster.jobs
  | _, [], w => List.Sublist.refl _
  | i, job :: jobs, w => by
    have hsub := (delete_calm (h i) w job).1
    unfold deleteActive
    split
    · rename_i w₁ hr
      rwa [hr] at hsub
    · rename_i outcome w₁ _ hr
      rw [hr] at hsub
      exact (deleteActive_calm h (i + 1) jobs w₁).trans hsub

theorem unfinished_construct {missedRun : Time} {job : Job}
    (h : constructJobForCronJob env cronJob missedRun = .ok job) : unfinished job := by
  unfold constructJobForCronJob at h
  dsimp only at h
  split at h
  · cases h
  · cases h
    rfl

/-- What the start of a run adds has not finished. -/
theorem startRun_calm (env : Env) (cronJob : CronJob) (h : script.Calm) (activeJobs : List Job) (missedRun : Time)
    (scheduledResult : Result) (w : World) : ∃ new, (∀ job ∈ new, unfinished job) ∧
      (startRun env cronJob script activeJobs missedRun scheduledResult w).2.cluster.jobs.Sublist
        (w.cluster.jobs ++ new) := by
  have hsub : (if cronJob.concurrencyPolicy = .replaceConcurrent then
      CronJobController.deleteActive script.deleteActive 0 activeJobs w
      else (true, w)).2.cluster.jobs.Sublist w.cluster.jobs := by
    split_ifs
    · exact deleteActive_calm h.deleteActive _ _ _
    · exact List.Sublist.refl _
  unfold startRun
  dsimp only
  generalize (if cronJob.concurrencyPolicy = .replaceConcurrent then
    CronJobController.deleteActive script.deleteActive 0 activeJobs w else (true, w)) = r at hsub
  obtain ⟨deleted, w₁⟩ := r
  have hnone : ∃ new : List Job, (∀ job ∈ new, unfinished job) ∧
      w₁.cluster.jobs.Sublist (w.cluster.jobs ++ new) := ⟨[], by simp, by simpa using hsub⟩
  split_ifs
  · exact hnone
  · rcases hj : constructJobForCronJob env cronJob missedRun with err | job
    · exact hnone
    · simp only [World.create, World.log, pass_calm h.create]
      by_cases ho : script.create.outcome = .ok
      · by_cases hhas : w₁.cluster.has job.name = true
        · simpa only [ho, hhas, if_true, dif_pos] using hnone
        · simp only [ho, hhas, if_true]
          refine ⟨[job], fun other ho => ?_, hsub.append (List.Sublist.refl _)⟩
          rw [List.mem_singleton.mp ho]
          exact unfinished_construct hj
      · simpa only [ho, if_false] using hnone

theorem schedule_calm (env : Env) (cronJob : CronJob) (h : script.Calm) (children : Children)
    (w : World) : ∃ new, (∀ job ∈ new, unfinished job) ∧
      (schedule env cronJob script children w).2.cluster.jobs.Sublist (w.cluster.jobs ++ new) := by
  have hnone : ∀ w' : World, w'.cluster.jobs = w.cluster.jobs → ∃ new : List Job,
      (∀ job ∈ new, unfinished job) ∧ w'.cluster.jobs.Sublist (w.cluster.jobs ++ new) :=
    fun w' hw' => ⟨[], by simp, by rw [List.append_nil, hw']⟩
  unfold schedule
  split_ifs with hsuspend
  · exact hnone w rfl
  simp only [World.now]
  rcases getNextSchedule env cronJob (statusOf env children).lastScheduleTime script.nowSchedule
    with err | ⟨missedRun, nextRun⟩
  · exact hnone _ rfl
  dsimp only
  by_cases hzero : Time.isZero missedRun = true
  · rw [if_pos hzero]
    exact hnone _ rfl
  rw [if_neg hzero]
  obtain ⟨t, ht⟩ := checkDeadline_spec cronJob missedRun script.nowDeadline
    ⟨((w.cluster.advance script.nowSchedule).advance script.nowResult).advance script.nowLog, w.calls⟩
  simp only [ht]
  by_cases hlate : tooLate cronJob missedRun script.nowDeadline = true
  · rw [if_pos hlate]
    exact hnone _ rfl
  · rw [if_neg hlate]
    exact startRun_calm env cronJob h _ _ _ _

/-! ## A calm reconcile -/

/-- What has been called when the clean-up begins. -/
def listedCalls (env : Env) (jobs : List Job) : List Call :=
  [.list jobs, .updateStatus (statusOf env (classify env jobs))]

theorem reconcile_calm (h : script.Calm) (hclean : script.CleansUp) (c : Cluster) :
    reconcile env cronJob script ⟨c, []⟩ =
      schedule env cronJob script (classify env c.jobs)
        (cleanUp env cronJob.successfulJobsHistoryLimit (classify env c.jobs).successfulJobs
          script.deleteSuccessful
          (cleanUp env cronJob.failedJobsHistoryLimit (classify env c.jobs).failedJobs
            script.deleteFailed ⟨c, listedCalls env c.jobs⟩)) := by
  obtain ⟨hget, hlist, hupdate⟩ := hclean
  unfold reconcile
  simp only [World.get, hget, World.list, hlist, if_true, World.updateStatus, hupdate, decide_true,
    pass_calm h.get, pass_calm h.list, pass_calm h.updateStatus]
  rfl

/-- No more finished Jobs of a kind than its limit are left. -/
theorem length_without_le (env : Env) {limit : Int32} (hlimit : 0 ≤ limit) {jobs : List Job}
    (hlen : jobs.length < 2 ^ 31) :
    ((without (doomed env (some limit) jobs) jobs).length : Int) ≤ limit.toInt := by
  have hnonneg : 0 ≤ limit.toInt := Int32.le_iff_toInt_le.mp hlimit
  have hperm := env.sortSlice_perm startedBefore jobs
  unfold doomed
  dsimp only
  generalize env.sortSlice startedBefore jobs = sorted at hperm
  rw [hperm.length_eq, surplus_eq_take hlimit hlen 0 sorted (by rw [hperm.length_eq]; omega),
    Nat.sub_zero, without, ← (hperm.filter _).length_eq]
  set k := jobs.length - limit.toInt.toNat with hk
  have hnil : (sorted.take k).filter (fun job => (sorted.take k).all (·.name != job.name)) = [] := by
    refine List.filter_eq_nil_iff.mpr fun job hjob hall => ?_
    simpa using List.all_eq_true.mp hall job hjob
  have hle : (sorted.filter fun job => (sorted.take k).all (·.name != job.name)).length ≤
      (sorted.drop k).length := by
    conv_lhs => rw [← List.take_append_drop k sorted]
    rw [List.filter_append, List.take_append_drop, hnil, List.nil_append]
    exact List.length_filter_le _ _
  rw [List.length_drop, hperm.length_eq] at hle
  omega

theorem filter_without (p : Job → Bool) (lost jobs : List Job) :
    (without lost jobs).filter p = without lost (jobs.filter p) := by
  rw [without, without, List.filter_filter, List.filter_filter]
  exact List.filter_congr fun job _ => Bool.and_comm _ _

/-- A calm reconcile that does not get to the clean-up. -/
theorem reconcile_unclean (env : Env) (cronJob : CronJob) (h : script.Calm)
    (hclean : ¬ script.CleansUp) (c : Cluster) : ∃ calls, (∀ call ∈ calls, call ∈ listedCalls env c.jobs) ∧
      (reconcile env cronJob script ⟨c, []⟩).2 = ⟨c, calls⟩ := by
  unfold reconcile World.get
  rw [pass_calm h.get]
  rcases hget : script.get.outcome with _ | _ | _
  · simp only [World.list, pass_calm h.list]
    by_cases hlist : script.list.outcome = .ok
    · have hupdate : script.updateStatus.outcome ≠ .ok := fun hu => hclean ⟨hget, hlist, hu⟩
      simp only [hlist, if_true, World.updateStatus, pass_calm h.updateStatus, hupdate, decide_false]
      exact ⟨listedCalls env c.jobs, fun _ hcall => hcall, rfl⟩
    · simp only [hlist, if_false]
      exact ⟨[], by simp, rfl⟩
  · exact ⟨[], by simp, rfl⟩
  · exact ⟨[], by simp, rfl⟩

theorem doomed_eq_nil {limit : Option Int32} {jobs : List Job}
    (hnonneg : ∀ l, limit = some l → 0 ≤ l)
    (h : ∀ l, limit = some l → (jobs.length : Int) ≤ l.toInt) : doomed env limit jobs = [] := by
  rcases limit with _ | limit
  · rfl
  · have hle := h limit rfl
    have hmax := limit.toInt_lt
    have hperm := env.sortSlice_perm startedBefore jobs
    unfold doomed
    dsimp only
    rw [surplus_eq_take (hnonneg limit rfl) (by rw [hperm.length_eq]; omega) 0 _ (by omega),
      hperm.length_eq, Nat.sub_zero, Nat.sub_eq_zero_of_le (by omega), List.take_zero]

/-- The limits are as the API server admits them. -/
def Admitted (cronJob : CronJob) : Prop :=
  ∀ type limit, cronJob.historyLimit type = some limit → 0 ≤ limit

/-- With settled children, a calm reconcile before the next activation leaves everything as it is. -/
theorem Settled.reconcile (hA : Activations env cronJob A) (hlimits : Admitted cronJob) {c : Cluster}
    {now : Time} (hs : Settled env cronJob A c.jobs now) (h : script.Calm)
    (hnow : ∀ a ∈ A, a ∉ Set.Ioc now script.nowSchedule) :
    let w := (reconcile env cronJob script ⟨c, []⟩).2
    w.cluster.jobs = c.jobs ∧ w.cluster.created = c.created ∧
      ∀ call ∈ w.calls, call ∈ listedCalls env c.jobs := by
  intro w
  by_cases hclean : script.CleansUp
  · have hfailed : doomed env cronJob.failedJobsHistoryLimit (classify env c.jobs).failedJobs = [] := by
      rw [classify_failedJobs]
      exact doomed_eq_nil (hlimits .failed) (hs.history .failed)
    have hsuccessful :
        doomed env cronJob.successfulJobsHistoryLimit (classify env c.jobs).successfulJobs = [] := by
      rw [classify_successfulJobs]
      exact doomed_eq_nil (hlimits .complete) (hs.history .complete)
    have hdue : dueRun env cronJob (classify env c.jobs).mostRecentTime script.nowSchedule
        script.nowDeadline = none := by
      rw [Option.eq_none_iff_forall_not_mem]
      intro missedRun hdue
      obtain ⟨hmem, hle, -, hlast⟩ := dueRun_spec hA.next hdue
      rcases le_or_gt missedRun now with hearly | hlate
      · exact absurd (hs.scheduled missedRun hmem hearly) (not_le.mpr hlast)
      · exact hnow missedRun hmem ⟨hlate, hle⟩
    obtain ⟨t, -, hschedule⟩ := schedule_spec env cronJob script (classify env c.jobs)
      ⟨c, listedCalls env c.jobs⟩
    rw [hdue] at hschedule
    have hw : w = ⟨c.advance t, listedCalls env c.jobs⟩ := by
      show (CronJobController.reconcile env cronJob script ⟨c, []⟩).2 = _
      rw [reconcile_calm h hclean, cleanUp_nil hfailed, cleanUp_nil hsuccessful]
      exact hschedule
    rw [hw]
    exact ⟨rfl, rfl, fun _ hcall => hcall⟩
  · obtain ⟨calls, hcalls, hw⟩ := reconcile_unclean env cronJob h hclean c
    rw [show w = _ from hw]
    exact ⟨rfl, rfl, hcalls⟩

/-- What is left of a finished kind after a calm reconcile whose deletes do not fail. -/
theorem length_finished_le (hlimits : Admitted cronJob) (h : script.Calm) (htidy : script.Tidies)
    (hclean : script.CleansUp) {c : Cluster} (hlen : c.jobs.length < 2 ^ 31)
    {type : JobConditionType} {limit : Int32} (hlimit : cronJob.historyLimit type = some limit) :
    (((reconcile env cronJob script ⟨c, []⟩).2.cluster.jobs.filter (finishedAs type)).length : Int) ≤
      limit.toInt := by
  rw [reconcile_calm h hclean]
  obtain ⟨new, hnew, hsub⟩ := schedule_calm env cronJob h (classify env c.jobs)
    (cleanUp env cronJob.successfulJobsHistoryLimit (classify env c.jobs).successfulJobs
      script.deleteSuccessful
      (cleanUp env cronJob.failedJobsHistoryLimit (classify env c.jobs).failedJobs
        script.deleteFailed ⟨c, listedCalls env c.jobs⟩))
  rw [cleanUp_calm h.deleteSuccessful htidy.deleteSuccessful,
    cleanUp_calm h.deleteFailed htidy.deleteFailed] at hsub
  have hnil : new.filter (finishedAs type) = [] := by
    refine List.filter_eq_nil_iff.mpr fun job hjob hfinished => ?_
    have hun := hnew job hjob
    simp only [unfinished, finishedAs, beq_iff_eq, Option.isNone_iff_eq_none] at hun hfinished
    rw [hun] at hfinished
    cases hfinished
  replace hsub := (hsub.filter (finishedAs type)).length_le
  rw [List.filter_append, hnil, List.append_nil, filter_without, filter_without] at hsub
  have hfew : (c.jobs.filter (finishedAs type)).length < 2 ^ 31 :=
    lt_of_le_of_lt (List.length_filter_le _ _) hlen
  refine le_trans (Int.ofNat_le.mpr hsub) ?_
  have hkept := length_without_le env (hlimits type limit hlimit) hfew
  refine le_trans (Int.ofNat_le.mpr ?_) hkept
  cases type with
  | failed =>
    rw [classify_failedJobs, show cronJob.failedJobsHistoryLimit = some limit from hlimit]
    exact (List.filter_sublist).length_le
  | complete =>
    rw [classify_successfulJobs, show cronJob.successfulJobsHistoryLimit = some limit from hlimit]
    exact (List.filter_sublist.filter _).length_le
  | other => cases hlimit

/-- A reconcile that creates a Job does it for the run that is due, and leaves it there. -/
theorem created_of_call {c : Cluster} {job : Job}
    (hcall : .create job true ∈ (reconcile env cronJob script ⟨c, []⟩).2.calls) :
    script.CleansUp ∧ ∃ missedRun, script.due env cronJob c = some missedRun ∧
      constructJobForCronJob env cronJob missedRun = .ok job ∧
      job ∈ (reconcile env cronJob script ⟨c, []⟩).2.cluster.jobs := by
  have hnot : ∀ {jobs : List Job} {calls : List Call}, Deletes jobs calls → .create job true ∉ calls := by
    intro jobs calls hdel hmem
    obtain ⟨_, -, _, he⟩ := hdel _ hmem
    cases he
  have hspec := reconcile_spec env cronJob script c
  generalize (reconcile env cronJob script ⟨c, []⟩).2 = r at hcall hspec
  cases hspec with
  | unlisted _ hcalls => simp [hcalls] at hcall
  | failed _ hcalls => simp [hcalls] at hcall
  | idle _ _ _ _ attempts hcalls =>
    rw [hcalls] at hcall
    exact absurd (by simpa using hcall) (hnot attempts.deletes)
  | due hclean hdue _ _ attempts hcalls started =>
    cases started with
    | given_up _ deletes hcalls' =>
      rw [hcalls', hcalls] at hcall
      rcases List.mem_append.mp hcall with hcall | hcall
      · exact absurd (by simpa using hcall) (hnot attempts.deletes)
      · exact absurd hcall (hnot deletes)
    | @tried _ made _ created _ _ deletes _ construct hcluster hcalls' =>
      rw [hcalls', hcalls] at hcall
      rcases List.mem_append.mp hcall with hcall | hcall
      · exact absurd (by simpa using hcall) (hnot attempts.deletes)
      rcases List.mem_append.mp hcall with hcall | hcall
      · exact absurd hcall (hnot deletes)
      obtain ⟨rfl, rfl⟩ : job = made ∧ true = created := by simpa using hcall
      obtain ⟨hfalse, -⟩ | ⟨-, hname, hr⟩ := hcluster
      · cases hfalse
      · refine ⟨hclean, _, hdue, construct, ?_⟩
        rw [hr]
        exact List.mem_append_right _ (.head _)

theorem settled_of_created (hA : Activations env cronJob A) (hlimits : Admitted cronJob)
    (h : script.Calm) (htidy : script.Tidies) {c : Cluster} (hlen : c.jobs.length < 2 ^ 31) {job : Job}
    (hcall : .create job true ∈ (reconcile env cronJob script ⟨c, []⟩).2.calls) :
    Settled env cronJob A (reconcile env cronJob script ⟨c, []⟩).2.cluster.jobs script.nowSchedule := by
  obtain ⟨hclean, missedRun, hdue, hconstruct, hjob⟩ := created_of_call hcall
  obtain ⟨hmem, -, hlatest, -⟩ := dueRun_spec hA.next hdue
  refine ⟨fun a ha hle => ?_, fun type limit => length_finished_le hlimits h htidy hclean hlen⟩
  obtain ⟨m, hm, hle'⟩ := classify_mostRecentTime hjob (scheduledAt_construct hA hmem hconstruct)
  rw [hm]
  exact le_trans (hlatest a ha hle) hle'

/-! ## Until the next activation -/

/-- Nothing happens to the Jobs, and the clock that `getNextSchedule` reads has not reached an
activation after `now`. -/
def Still (A : Set Time) (now : Time) : Move → Prop
  | .reconcile script => script.Calm ∧ ∀ a ∈ A, a ∉ Set.Ioc now script.nowSchedule
  | .update _ _ => False
  | .clock _ => True

/-- After a reconcile that has created a Job, with no failed call to delete a finished one, the
controller does nothing more until the next activation or until something happens to a Job: however
often it reconciles and however its calls go, it lists the same children, writes the same status,
and calls no `Create` and no `Delete`. -/
theorem run_settles (hA : Activations env cronJob A) (hlimits : Admitted cronJob) (h : script.Calm)
    (htidy : script.Tidies) {c : Cluster} (hlen : c.jobs.length < 2 ^ 31) {job : Job}
    (hcall : .create job true ∈ (reconcile env cronJob script ⟨c, []⟩).2.calls) {moves : List Move}
    (hmoves : ∀ move ∈ moves, Still A script.nowSchedule move) :
    let c' := (reconcile env cronJob script ⟨c, []⟩).2.cluster
    (run env cronJob c' moves).jobs = c'.jobs ∧ (run env cronJob c' moves).created = c'.created ∧
      ∀ later, Still A script.nowSchedule (.reconcile later) →
        ∀ call ∈ (reconcile env cronJob later ⟨run env cronJob c' moves, []⟩).2.calls,
          call ∈ [.list c'.jobs, .updateStatus (statusOf env (classify env c'.jobs))] := by
  intro c'
  have hsettled : Settled env cronJob A c'.jobs script.nowSchedule :=
    settled_of_created hA hlimits h htidy hlen hcall
  have hrun : (run env cronJob c' moves).jobs = c'.jobs ∧
      (run env cronJob c' moves).created = c'.created := by
    refine List.foldlRecOn (motive := fun c => c.jobs = c'.jobs ∧ c.created = c'.created) moves
      (step env cronJob) ⟨rfl, rfl⟩ ?_
    rintro c'' ⟨hjobs, hcreated⟩ move hmove
    have hstill := hmoves move hmove
    cases move with
    | update => exact hstill.elim
    | clock t => exact ⟨hjobs, hcreated⟩
    | reconcile later =>
      obtain ⟨hjobs', hcreated', -⟩ :=
        Settled.reconcile hA hlimits (c := c'') (hjobs ▸ hsettled) hstill.1 hstill.2
      exact ⟨hjobs'.trans hjobs, hcreated'.trans hcreated⟩
  refine ⟨hrun.1, hrun.2, fun later hlater call hmem => ?_⟩
  obtain ⟨-, -, hcalls⟩ := Settled.reconcile hA hlimits (c := run env cronJob c' moves)
    (hrun.1 ▸ hsettled) hlater.1 hlater.2
  have hlisted := hcalls call hmem
  rwa [listedCalls, hrun.1] at hlisted

theorem calm_undisturbed (t : Time) : (undisturbed t).Calm :=
  ⟨rfl, rfl, rfl, fun _ => rfl, fun _ => rfl, fun _ => rfl, rfl⟩

/-- An hourly CronJob at midnight, and a nanosecond later. -/
theorem run_settles_hourly :
    let cronJob := report .replaceConcurrent (some 1)
    let c' := (reconcile hourly cronJob (undisturbed newYear) ⟨.start, []⟩).2.cluster
    c'.jobs.length = 1 ∧ (run hourly cronJob c' [.reconcile (undisturbed (newYear + 1))]).jobs = c'.jobs := by
  intro cronJob c'
  have hcall : .create _ true ∈ (reconcile hourly cronJob (undisturbed newYear) ⟨.start, []⟩).2.calls :=
    .tail _ (.tail _ (.head _))
  have hlimits : Admitted cronJob := by
    intro type limit hlimit
    cases type <;> cases hlimit <;> decide
  have hstill : ∀ move ∈ [Move.reconcile (undisturbed (newYear + 1))], Still fullHours newYear move := by
    intro move hmove
    rw [List.mem_singleton.mp hmove]
    refine ⟨calm_undisturbed _, fun a ha hmem => ?_⟩
    have hnext : newYear + 1 < (newYear / hour + 1) * hour := by decide
    exact absurd (le_trans ((isLeast_hourly newYear).2 ⟨ha, hmem.1⟩) hmem.2) (not_le.mpr hnext)
  have htidy : (undisturbed newYear).Tidies :=
    ⟨fun _ => Outcome.noConfusion, fun _ => Outcome.noConfusion⟩
  exact ⟨by decide +kernel, (run_settles (activations_hourly _ _) hlimits (calm_undisturbed newYear)
    htidy (by decide) hcall hstill).1⟩

end CronJobController

end SideProjects
