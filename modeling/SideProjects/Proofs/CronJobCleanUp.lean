import SideProjects.Proofs.CronJobSchedule

/-!
# The clean-up deletes the oldest surplus

Every child is active, failed or successful. As long as their number fits 32 bits, the loop over the
sorted finished Jobs of one kind takes as many from the front as there are beyond the limit
(`surplus_eq_take`), so that whatever the sort does with ties, none that is kept started before one
that is deleted.
-/

namespace SideProjects

namespace CronJobController

/-! ## Kinds of children -/

theorem isJobFinished_cases (job : Job) :
    isJobFinished job = none ∨ isJobFinished job = some .failed ∨
      isJobFinished job = some .complete := by
  unfold isJobFinished
  generalize hfind : job.status.conditions.find? _ = found
  rcases found with _ | condition
  · exact .inl rfl
  · have hp := List.find?_some hfind
    simp only [Bool.and_eq_true, Bool.or_eq_true, beq_iff_eq] at hp
    rcases hp.1 with hc | hc
    · exact .inr (.inr (congrArg some hc))
    · exact .inr (.inl (congrArg some hc))

/-- The lists that the loop over the children fills hold every child once. -/
theorem classify_perm (env : Env) (childJobs : List Job) :
    ((classify env childJobs).activeJobs ++ (classify env childJobs).failedJobs ++
      (classify env childJobs).successfulJobs).Perm childJobs := by
  rw [classify_activeJobs, classify_failedJobs, classify_successfulJobs]
  induction childJobs with
  | nil => exact .nil
  | cons job jobs ih =>
    rcases isJobFinished_cases job with h | h | h <;>
      simp only [List.filter_cons, unfinished, finishedAs, h, Option.isNone_none, Option.isNone_some,
        beq_self_eq_true, if_true, Bool.false_eq_true, if_false, List.cons_append] <;>
      simp only [reduceCtorEq, Option.some.injEq, beq_iff_eq, if_false]
    · exact ih.cons job
    · rw [List.append_assoc, List.cons_append]
      refine List.perm_middle.trans (.cons job ?_)
      rw [← List.append_assoc]
      exact ih
    · exact List.perm_middle.trans (ih.cons job)

/-- No child is on two of the lists. -/
structure OneKind (children : Children) (job : Job) : Prop where
  some_kind : job ∈ children.activeJobs ∨ job ∈ children.failedJobs ∨ job ∈ children.successfulJobs
  not_failed : job ∈ children.activeJobs → job ∉ children.failedJobs
  not_successful : job ∈ children.activeJobs → job ∉ children.successfulJobs
  not_both : job ∈ children.failedJobs → job ∉ children.successfulJobs

theorem oneKind_of_mem {env : Env} {childJobs : List Job} {job : Job} (h : job ∈ childJobs) :
    OneKind (classify env childJobs) job := by
  constructor <;>
    simp only [classify_activeJobs, classify_failedJobs, classify_successfulJobs, List.mem_filter, h,
      true_and, unfinished, finishedAs] <;>
    rcases isJobFinished_cases job with hj | hj | hj <;> simp [hj]

/-! ## The surplus -/

/-- The 32-bit comparison of the clean-up is exact if the number of Jobs fits 32 bits. -/
theorem int32_ge_iff {limit : Int32} (hlimit : 0 ≤ limit) {len i : ℕ} (hlen : len < 2 ^ 31)
    (hi : i ≤ len) :
    Int32.ofNat i ≥ Int32.ofNat len - limit ↔ len - limit.toInt.toNat ≤ i := by
  have hnonneg : 0 ≤ limit.toInt := Int32.le_iff_toInt_le.mp hlimit
  have hmax := limit.toInt_lt
  rw [ge_iff_le, Int32.le_iff_toInt_le, Int32.toInt_sub, Int32.toInt_ofNat', Int32.toInt_ofNat',
    show Int32.size = 2 ^ 32 from rfl, Int.bmod_eq_of_le (n := len) (by omega) (by omega),
    Int.bmod_eq_of_le (n := i) (by omega) (by omega), Int.bmod_eq_of_le (by omega) (by omega)]
  omega

theorem surplus_eq_take {limit : Int32} (hlimit : 0 ≤ limit) {len : ℕ} (hlen : len < 2 ^ 31) :
    ∀ (i : ℕ) (jobs : List Job), i + jobs.length ≤ len →
      surplus limit len i jobs = jobs.take (len - limit.toInt.toNat - i)
  | _, [], _ => by simp [surplus]
  | i, job :: jobs, hi => by
    rw [List.length_cons] at hi
    unfold surplus
    split_ifs with hge
    · rw [int32_ge_iff hlimit hlen (by omega)] at hge
      rw [Nat.sub_eq_zero_of_le hge, List.take_zero]
    · rw [int32_ge_iff hlimit hlen (by omega)] at hge
      rw [surplus_eq_take hlimit hlen (i + 1) jobs (by omega),
        show len - limit.toInt.toNat - i = (len - limit.toInt.toNat - (i + 1)) + 1 by omega,
        List.take_succ_cons]

/-- Calls to delete the oldest of `jobs` beyond the limit, each of them once. -/
def DeletesOldest (limit : Int32) (jobs : List Job) (calls : List Call) : Prop :=
  ∃ deleted kept, Attempts deleted calls ∧ (deleted ++ kept).Perm jobs ∧
    (deleted.map Job.name).Nodup ∧ (deleted.length : Int) = max 0 (jobs.length - limit.toInt) ∧
    ∀ old ∈ deleted, ∀ job ∈ kept, started old ≤ started job

theorem Attempts.deletesOldest {env : Env} {limit : Int32} (hlimit : 0 ≤ limit) {jobs : List Job}
    (hlen : jobs.length < 2 ^ 31) (hunique : (jobs.map Job.name).Nodup) {calls : List Call}
    (h : Attempts (doomed env (some limit) jobs) calls) : DeletesOldest limit jobs calls := by
  have hnonneg : 0 ≤ limit.toInt := Int32.le_iff_toInt_le.mp hlimit
  have hsorted := env.sortSlice_sorted startedBefore jobs startedBefore_strictWeak
  have hperm := env.sortSlice_perm startedBefore jobs
  unfold doomed at h
  dsimp only at h
  generalize env.sortSlice startedBefore jobs = sorted at hsorted hperm h
  rw [hperm.length_eq, surplus_eq_take hlimit hlen 0 sorted (by rw [hperm.length_eq]; omega),
    Nat.sub_zero] at h
  have hsplit := List.take_append_drop (jobs.length - limit.toInt.toNat) sorted
  rw [← hsplit] at hsorted
  refine ⟨_, sorted.drop (jobs.length - limit.toInt.toNat), h, by rwa [hsplit], ?_, ?_,
    fun old hold job hjob => ?_⟩
  · exact ((hperm.map _).nodup_iff.mpr hunique).sublist ((List.take_sublist _ _).map _)
  · rw [List.length_take, hperm.length_eq]
    omega
  · exact startedBefore_eq_false_iff.mp ((List.pairwise_append.mp hsorted).2.2 old hold job hjob)

theorem Attempts.split {l₁ l₂ : List Job} {calls : List Call} (h : Attempts (l₁ ++ l₂) calls) :
    ∃ calls₁ calls₂, calls = calls₁ ++ calls₂ ∧ Attempts l₁ calls₁ ∧ Attempts l₂ calls₂ := by
  have htake := List.forall₂_take l₁.length h
  have hdrop := List.forall₂_drop l₁.length h
  rw [List.take_left] at htake
  rw [List.drop_left] at hdrop
  exact ⟨_, _, (List.take_append_drop l₁.length calls).symm, htake, hdrop⟩

/-- The attempts at the old Jobs of a reconcile are at the oldest of the failed ones, and then at the
oldest of the successful ones. -/
theorem Attempts.oldest {env : Env} {cronJob : CronJob} {f s : Int32}
    (hf : cronJob.failedJobsHistoryLimit = some f) (hs : cronJob.successfulJobsHistoryLimit = some s)
    (hf₀ : 0 ≤ f) (hs₀ : 0 ≤ s) {childJobs : List Job} (hlen : childJobs.length < 2 ^ 31)
    (hunique : (childJobs.map Job.name).Nodup) {calls : List Call}
    (h : Attempts (oldJobs env cronJob (classify env childJobs)) calls) :
    ∃ failed successful, calls = failed ++ successful ∧
      DeletesOldest f (childJobs.filter (finishedAs .failed)) failed ∧
      DeletesOldest s (childJobs.filter (finishedAs .complete)) successful := by
  have hfew : ∀ type, (childJobs.filter (finishedAs type)).length < 2 ^ 31 := fun type =>
    lt_of_le_of_lt (List.length_filter_le _ _) hlen
  have hnames : ∀ type, ((childJobs.filter (finishedAs type)).map Job.name).Nodup := fun type =>
    hunique.sublist (List.filter_sublist.map _)
  obtain ⟨failed, successful, rfl, hfailed, hsuccessful⟩ := h.split
  rw [hf, classify_failedJobs] at hfailed
  rw [hs, classify_successfulJobs] at hsuccessful
  exact ⟨failed, successful, rfl, hfailed.deletesOldest hf₀ (hfew _) (hnames _),
    hsuccessful.deletesOldest hs₀ (hfew _) (hnames _)⟩

theorem finished_of_attempts {env : Env} {cronJob : CronJob} {childJobs : List Job} {calls : List Call}
    (h : Attempts (oldJobs env cronJob (classify env childJobs)) calls) {job : Job}
    {outcome : Outcome} (hcall : .delete job outcome ∈ calls) : unfinished job = false := by
  obtain ⟨old, hmem, _, he⟩ := h.deletes _ hcall
  cases he
  exact finished_of_mem_oldJobs hmem

theorem unfinished_of_deletes {env : Env} {childJobs : List Job} {calls : List Call}
    (h : Deletes (classify env childJobs).activeJobs calls) {job : Job} {outcome : Outcome}
    (hcall : .delete job outcome ∈ calls) : unfinished job = true := by
  obtain ⟨active, hmem, _, he⟩ := h _ hcall
  cases he
  rw [classify_activeJobs] at hmem
  exact (List.mem_filter.mp hmem).2

/-- A reconcile that gets to the clean-up tries to delete the oldest failed and the oldest successful
children beyond the limits; what it deletes after that is unfinished. -/
theorem reconcile_deletesOldest {env : Env} {cronJob : CronJob} {f s : Int32}
    (hf : cronJob.failedJobsHistoryLimit = some f) (hs : cronJob.successfulJobsHistoryLimit = some s)
    (hf₀ : 0 ≤ f) (hs₀ : 0 ≤ s) {script : Script} (hclean : script.CleansUp) {c : Cluster}
    (hlen : (c.listed script).jobs.length < 2 ^ 31) :
    let childJobs := (c.listed script).jobs
    let failedJobs := childJobs.filter (finishedAs .failed)
    let successfulJobs := childJobs.filter (finishedAs .complete)
    StrictWeak startedBefore ∧
      (childJobs.filter unfinished ++ failedJobs ++ successfulJobs).Perm childJobs ∧
      (∀ child ∈ childJobs, OneKind (classify env childJobs) child) ∧
      ∃ status failed successful rest,
        (reconcile env cronJob script ⟨c, []⟩).2.calls =
          [.list childJobs, .updateStatus status] ++ (failed ++ successful) ++ rest ∧
        DeletesOldest f failedJobs failed ∧ DeletesOldest s successfulJobs successful ∧
        (∀ job outcome, .delete job outcome ∈ failed ++ successful → unfinished job = false) ∧
        ∀ job outcome, .delete job outcome ∈ rest → unfinished job = true := by
  intro childJobs failedJobs successfulJobs
  have hperm : (childJobs.filter unfinished ++ failedJobs ++ successfulJobs).Perm childJobs := by
    simpa only [classify_activeJobs, classify_failedJobs, classify_successfulJobs] using
      classify_perm env childJobs
  refine ⟨startedBefore_strictWeak, hperm, fun _ => oneKind_of_mem, ?_⟩
  have hissued := reconcile_issued env cronJob script c
  generalize (reconcile env cronJob script ⟨c, []⟩).2.calls = calls at hissued
  cases hissued with
  | unlisted hnot => exact absurd hclean hnot
  | failed _ hnot => exact absurd hclean hnot
  | @cleaned status old active _ attempts deletes =>
    obtain ⟨failed, successful, rfl, hfailed, hsuccessful⟩ :=
      attempts.oldest hf hs hf₀ hs₀ hlen (c.listed script).unique
    exact ⟨status, failed, successful, active, rfl, hfailed, hsuccessful,
      fun _ _ => finished_of_attempts attempts, fun _ _ => unfinished_of_deletes deletes⟩
  | @created status old active _ _ _ _ _ attempts deletes =>
    obtain ⟨failed, successful, rfl, hfailed, hsuccessful⟩ :=
      attempts.oldest hf hs hf₀ hs₀ hlen (c.listed script).unique
    refine ⟨status, failed, successful, _, List.append_assoc _ _ _, hfailed, hsuccessful,
      fun _ _ => finished_of_attempts attempts, fun job outcome hcall => ?_⟩
    have hactive : .delete job outcome ∈ active := by simpa using hcall
    exact unfinished_of_deletes deletes hactive

/-- A finished Job. -/
def finishedJob (type : JobConditionType) (name : String) (startTime : Option Time) : Job where
  name := name
  namespaceName := "default"
  labels _ := none
  annotations _ := none
  status := ⟨[⟨type, .conditionTrue⟩], startTime⟩

/-- Of two failed Jobs the one that never started is deleted, and the successful one with it, of which
none is to be kept. -/
theorem reconcile_deletesOldest_three :
    let cronJob := { report .allowConcurrent (some 1) with successfulJobsHistoryLimit := some 0 }
    let late := finishedJob .failed "late" (some newYear)
    let never := finishedJob .failed "never" none
    let done := finishedJob .complete "done" (some newYear)
    let c : Cluster := ⟨[late, done, never], by decide, 0, []⟩
    let w := (reconcile hourly cronJob (undisturbed (newYear - 1)) ⟨c, []⟩).2
    w.cluster.jobs.map Job.name = ["late"] ∧
      ∃ status failed successful rest,
        w.calls = [.list c.jobs, .updateStatus status] ++ (failed ++ successful) ++ rest ∧
        DeletesOldest 1 [late, never] failed ∧ DeletesOldest 0 [done] successful := by
  intro cronJob late never done c w
  have hclean : (undisturbed (newYear - 1)).CleansUp := ⟨rfl, rfl, rfl⟩
  obtain ⟨-, -, -, status, failed, successful, rest, hcalls, hfailed, hsuccessful, -⟩ :=
    @reconcile_deletesOldest hourly cronJob 1 0 rfl rfl (by decide) (by decide) _ hclean c (by decide)
  exact ⟨by decide +kernel, status, failed, successful, rest, hcalls, hfailed, hsuccessful⟩

end CronJobController

end SideProjects
