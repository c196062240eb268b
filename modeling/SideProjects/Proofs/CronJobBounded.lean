import SideProjects.Proofs.CronJobSettled
import SideProjects.Proofs.CronJobWebhook

/-!
# The children do not pile up

With the policy `Replace`, a reconcile that creates a Job has deleted the unfinished children it
listed, and of the finished ones it leaves those that are to be kept and those whose `Delete` failed.
Any other reconcile only takes away. So however long the controller runs, the children are no more
than the history limits, one for the new Job, and one for each `Delete` that fails in one reconcile
(`run_bounded`).
-/

namespace SideProjects

namespace CronJobController

/-- The Jobs that could not be deleted. -/
def failedDeletes (calls : List Call) : List Job :=
  calls.filterMap fun call =>
    match call with
    | .delete job .failed => some job
    | _ => none

/-- A reconcile in which no more than `k` calls of `Delete` fail. -/
def FailsAtMost (env : Env) (cronJob : CronJob) (k : ℕ) (c : Cluster) : Move → Prop
  | .reconcile script =>
    (failedDeletes (reconcile env cronJob script ⟨c, []⟩).2.calls).length ≤ k
  | _ => True

instance (env : Env) (cronJob : CronJob) (k : ℕ) (c : Cluster) :
    ∀ move : Move, Decidable (FailsAtMost env cronJob k c move)
  | .reconcile _ => inferInstanceAs (Decidable (_ ≤ k))
  | .update _ _ => .isTrue trivial
  | .clock _ => .isTrue trivial

variable {env : Env} {cronJob : CronJob} {script : Script}

/-! ## What the clean-up leaves -/

theorem failedDeletes_append (l l' : List Call) :
    failedDeletes (l ++ l') = failedDeletes l ++ failedDeletes l' :=
  List.filterMap_append

/-- An attempt has been made to delete each of `jobs`, and what is left of them has failed calls. -/
structure Swept (jobs : List Job) (w r : World) : Prop where
  evolves : Evolves (Named jobs) w.cluster r.cluster
  left : ∃ calls, r.calls = w.calls ++ calls ∧
    ∀ job ∈ r.cluster.jobs, Named jobs job.name → Named (failedDeletes calls) job.name

theorem Swept.refl (w : World) : Swept [] w w :=
  ⟨.refl _ _, [], (List.append_nil _).symm, by rintro job - ⟨_, hmem, -⟩; cases hmem⟩

theorem Swept.trans {l₁ l₂ : List Job} {w w₁ w₂ : World} (h₁ : Swept l₁ w w₁) (h₂ : Swept l₂ w₁ w₂) :
    Swept (l₁ ++ l₂) w w₂ := by
  obtain ⟨calls₁, hcalls₁, hleft₁⟩ := h₁.left
  obtain ⟨calls₂, hcalls₂, hleft₂⟩ := h₂.left
  refine ⟨(h₁.evolves.mono fun _ h => h.mono (List.subset_append_left _ _)).trans
    (h₂.evolves.mono fun _ h => h.mono (List.subset_append_right _ _)), calls₁ ++ calls₂,
    by rw [hcalls₂, hcalls₁, List.append_assoc], fun job hjob ⟨old, hold, hname⟩ => ?_⟩
  rw [failedDeletes_append]
  rcases List.mem_append.mp hold with hold | hold
  · -- what was left by the first calls may still be there
    obtain ⟨was, hwas, hb⟩ := h₂.evolves.old hjob
    have hnamed : Named l₁ was.name := ⟨old, hold, hname.trans hb.name⟩
    rw [hb.name]
    exact (hleft₁ was hwas hnamed).mono (List.subset_append_left _ _)
  · exact (hleft₂ job hjob ⟨old, hold, hname⟩).mono (List.subset_append_right _ _)

theorem swept_delete (w : World) (job : Job) (tick : Tick) :
    Swept [job] w (w.delete job tick).2 := by
  obtain ⟨hevolves, hgone, hcalls⟩ := delete_spec w job tick
  refine ⟨hevolves.mono fun _ h => ⟨job, .head _, h.symm⟩, _, hcalls, fun other ho hnamed => ?_⟩
  obtain ⟨old, hold, hname⟩ := hnamed
  obtain rfl := List.mem_singleton.mp hold
  by_cases hfailed : (w.delete old tick).1 = .failed
  · rw [hfailed]
    exact ⟨old, .head _, hname⟩
  · exact absurd hname.symm (hgone hfailed other ho)

theorem deleteOld_swept (limit : Int32) (len : ℕ) (ticks : ℕ → Tick) :
    ∀ (i : ℕ) (jobs : List Job) (w : World),
      Swept (surplus limit len i jobs) w (deleteOld limit len ticks i jobs w)
  | _, [], w => .refl w
  | i, job :: jobs, w => by
    unfold deleteOld surplus
    split_ifs
    · exact .refl w
    · exact (swept_delete w job (ticks i)).trans (deleteOld_swept limit len ticks (i + 1) jobs _)

theorem cleanUp_swept (env : Env) (limit : Option Int32) (jobs : List Job) (ticks : ℕ → Tick)
    (w : World) : Swept (doomed env limit jobs) w (cleanUp env limit jobs ticks w) := by
  cases limit with
  | none => exact .refl w
  | some limit => exact deleteOld_swept _ _ _ _ _ _

theorem reconcile_swept (env : Env) (cronJob : CronJob) (hclean : script.CleansUp) (c : Cluster) :
    ∃ w₀ w : World, Evolves Nobody (c.listed script) w₀.cluster ∧
      Swept (oldJobs env cronJob (classify env (c.listed script).jobs)) w₀ w ∧
      reconcile env cronJob script ⟨c, []⟩ =
        schedule env cronJob script (classify env (c.listed script).jobs) w := by
  obtain ⟨hget, hlist, hupdate⟩ := hclean
  unfold reconcile
  simp only [World.get, hget, World.list, if_pos hlist, World.updateStatus, hupdate, decide_true]
  refine ⟨_, _, ?_, (cleanUp_swept env _ _ script.deleteFailed _).trans
    (cleanUp_swept env _ _ script.deleteSuccessful _), rfl⟩
  exact evolves_pass ⟨c.listed script, _⟩ script.updateStatus

/-! ## Counting -/

theorem Evolves.length_le {gone : String → Prop} {c c' : Cluster} (h : Evolves gone c c') :
    c'.jobs.length ≤ c.jobs.length := by
  have hjobs := h.jobs
  generalize c.jobs = olds at hjobs
  generalize c'.jobs = news at hjobs
  induction hjobs with
  | nil => exact Nat.zero_le _
  | cons _ _ ih => exact Nat.succ_le_succ ih
  | cons_right _ ih => exact le_trans ih (Nat.le_succ _)

theorem mem_without {lost jobs : List Job} {job : Job} :
    job ∈ without lost jobs ↔ job ∈ jobs ∧ ¬ Named lost job.name := by
  rw [without, List.mem_filter, List.all_eq_true]
  refine and_congr_right fun _ => ⟨?_, ?_⟩
  · rintro hall ⟨old, hold, hname⟩
    simpa [hname] using hall old hold
  · intro hnot old hold
    rw [bne_iff_ne]
    exact fun hname => hnot ⟨old, hold, hname⟩

/-- The finished children that the clean-up does not touch. -/
def keptJobs (env : Env) (cronJob : CronJob) (children : Children) : List Job :=
  without (doomed env cronJob.failedJobsHistoryLimit children.failedJobs) children.failedJobs ++
    without (doomed env cronJob.successfulJobsHistoryLimit children.successfulJobs)
      children.successfulJobs

/-- A child is unfinished, or the clean-up tries to delete it, or it is to be kept. -/
theorem classify_kept (env : Env) (cronJob : CronJob) {childJobs : List Job} {job : Job} (hjob : job ∈ childJobs) :
    job ∈ (classify env childJobs).activeJobs ∨
      Named (oldJobs env cronJob (classify env childJobs)) job.name ∨
      job ∈ keptJobs env cronJob (classify env childJobs) := by
  have hmem := (classify_perm env childJobs).mem_iff.mpr hjob
  rw [List.mem_append, List.mem_append, or_assoc] at hmem
  refine hmem.imp_right fun hfinished => ?_
  by_contra hnot
  rw [not_or] at hnot
  refine hnot.2 (List.mem_append.mpr (hfinished.imp (fun hf => ?_) fun hs => ?_))
  · exact mem_without.mpr ⟨hf, fun h => hnot.1 (h.mono (List.subset_append_left _ _))⟩
  · exact mem_without.mpr ⟨hs, fun h => hnot.1 (h.mono (List.subset_append_right _ _))⟩

/-- A CronJob that replaces its Jobs, with its two history limits. -/
structure Replaces (cronJob : CronJob) (f s : Int32) : Prop where
  policy : cronJob.concurrencyPolicy = .replaceConcurrent
  failed : cronJob.failedJobsHistoryLimit = some f
  successful : cronJob.successfulJobsHistoryLimit = some s
  failed_nonneg : 0 ≤ f
  successful_nonneg : 0 ≤ s

variable {f s : Int32}

theorem Replaces.length_keptJobs_le (h : Replaces cronJob f s) (env : Env) {childJobs : List Job}
    (hlen : childJobs.length < 2 ^ 31) :
    ((keptJobs env cronJob (classify env childJobs)).length : Int) ≤ f.toInt + s.toInt := by
  have hfew : ∀ type, (childJobs.filter (finishedAs type)).length < 2 ^ 31 := fun type =>
    lt_of_le_of_lt (List.length_filter_le _ _) hlen
  rw [keptJobs, h.failed, h.successful, classify_failedJobs, classify_successfulJobs,
    List.length_append, Nat.cast_add]
  exact add_le_add (length_without_le env h.failed_nonneg (hfew .failed))
    (length_without_le env h.successful_nonneg (hfew .complete))

/-- When a Job is about to be created, the children that are left are to be kept, or could not be
deleted. -/
theorem Replaces.length_le (h : Replaces cronJob f s) {listed c : Cluster}
    (hlen : listed.jobs.length < 2 ^ 31) (holds : ∀ job ∈ c.jobs, ∃ old ∈ listed.jobs, Became old job)
    {failed : List Job}
    (hleft : ∀ job ∈ c.jobs, Named (oldJobs env cronJob (classify env listed.jobs)) job.name →
      Named failed job.name)
    (hnone : ∀ job ∈ c.jobs,
      ¬ Named (replaced cronJob (classify env listed.jobs).activeJobs) job.name) :
    (c.jobs.length : Int) ≤ f.toInt + s.toInt + failed.length := by
  have hsub : c.jobs.map Job.name ⊆
      (keptJobs env cronJob (classify env listed.jobs) ++ failed).map Job.name := by
    intro name hname
    obtain ⟨job, hjob, rfl⟩ := List.mem_map.mp hname
    obtain ⟨old, hold, hb⟩ := holds job hjob
    rw [List.mem_map]
    rcases classify_kept env cronJob hold with hactive | hdoomed | hkept
    · refine absurd ?_ (hnone job hjob)
      rw [replaced, if_pos h.policy]
      exact ⟨old, hactive, hb.name.symm⟩
    · obtain ⟨was, hwas, hwasName⟩ := hleft job hjob (hb.name ▸ hdoomed)
      exact ⟨was, List.mem_append_right _ hwas, hwasName⟩
    · exact ⟨old, List.mem_append_left _ hkept, hb.name.symm⟩
  have hle := c.unique.length_le_of_subset hsub
  rw [List.length_map, List.length_map, List.length_append] at hle
  have hkept := h.length_keptJobs_le env hlen
  omega

/-! ## Runs -/

/-- A reconcile leaves no more children than there were, or no more than it has to keep, the new Job
and those it could not delete. -/
theorem reconcile_bounded (env : Env) (h : Replaces cronJob f s) (script : Script) {c : Cluster}
    (hlen : c.jobs.length < 2 ^ 31) :
    let r := (reconcile env cronJob script ⟨c, []⟩).2
    r.cluster.jobs.length ≤ c.jobs.length ∨
      (r.cluster.jobs.length : Int) ≤ f.toInt + s.toInt + 1 + (failedDeletes r.calls).length := by
  intro r
  have hlisted := evolves_listed c script
  by_cases hclean : script.CleansUp
  swap
  · left
    have hspec : Reconciled env cronJob script c r := reconcile_spec env cronJob script c
    cases hspec with
    | unlisted evolves => exact evolves.length_le
    | failed evolves => exact le_trans evolves.length_le hlisted.length_le
    | idle hclean' => exact absurd hclean' hclean
    | due hclean' => exact absurd hclean' hclean
  obtain ⟨w₀, w, hw₀, hswept, hr⟩ := reconcile_swept env cronJob hclean c
  obtain ⟨calls, hcalls, hleft⟩ := hswept.left
  obtain ⟨t, -, hcase⟩ := schedule_spec env cronJob script (classify env (c.listed script).jobs) w
  have hw : Evolves _ (c.listed script) w.cluster := hw₀.weaken.trans hswept.evolves
  have hfewer : w.cluster.jobs.length ≤ c.jobs.length := le_trans hw.length_le hlisted.length_le
  rw [show r = _ from congrArg Prod.snd hr]
  generalize (schedule env cronJob script (classify env (c.listed script).jobs) w).2 = w' at hcase ⊢
  split at hcase
  · rw [hcase]
    exact .inl hfewer
  · cases hcase.2 with
    | given_up evolves => exact .inl (le_trans evolves.length_le hfewer)
    | @tried c' _ _ _ evolves none_left _ _ _ hcluster hcalls' =>
      obtain ⟨-, hc'⟩ | ⟨-, hname, hc'⟩ := hcluster <;> rw [hc']
      · exact .inl (le_trans evolves.length_le hfewer)
      · right
        have holds : ∀ job ∈ c'.jobs, ∃ old ∈ (c.listed script).jobs, Became old job := by
          intro job hjob
          obtain ⟨was, hwas, hb⟩ := evolves.old hjob
          obtain ⟨old, hold, hb'⟩ := hw.old hwas
          exact ⟨old, hold, hb'.trans hb⟩
        have hstill : ∀ job ∈ c'.jobs, Named (oldJobs env cronJob
            (classify env (c.listed script).jobs)) job.name → Named (failedDeletes calls) job.name := by
          intro job hjob hnamed
          obtain ⟨was, hwas, hb⟩ := evolves.old hjob
          rw [hb.name] at hnamed ⊢
          exact hleft was hwas hnamed
        have hfew := h.length_le (lt_of_le_of_lt hlisted.length_le hlen) holds hstill none_left
        rw [hcalls', failedDeletes_append, hcalls, failedDeletes_append, Cluster.create,
          List.length_append, List.length_append, List.length_append]
        simp only [List.length_singleton]
        omega

theorem replaces_applyDefaults {sent : CronJob} (hpolicy : sent.concurrencyPolicy = .replaceConcurrent)
    (hlimits : Admitted sent) :
    Replaces (CronJobWebhook.CronJobCustomDefaulter.registered.applyDefaults sent)
      (sent.failedJobsHistoryLimit.getD 1) (sent.successfulJobsHistoryLimit.getD 3) where
  policy := by
    show (if sent.concurrencyPolicy = .other "" then _ else sent.concurrencyPolicy) = _
    rw [if_neg (by rw [hpolicy]; exact ConcurrencyPolicy.noConfusion), hpolicy]
  failed := rfl
  successful := rfl
  failed_nonneg := by
    rcases hlimit : sent.failedJobsHistoryLimit with _ | limit
    · decide
    · exact hlimits .failed limit hlimit
  successful_nonneg := by
    rcases hlimit : sent.successfulJobsHistoryLimit with _ | limit
    · decide
    · exact hlimits .complete limit hlimit

/-- However long the controller runs on a CronJob as the webhook admits it, with the policy `Replace`
and limits that are not negative: there are never more children than there were, or than the limits,
one, and as many as calls of `Delete` fail in one reconcile. -/
theorem run_bounded {sent : CronJob} (hpolicy : sent.concurrencyPolicy = .replaceConcurrent)
    (hlimits : Admitted sent) {c : Cluster} {moves : List Move} {k : ℕ} :
    let cronJob := CronJobWebhook.CronJobCustomDefaulter.registered.applyDefaults sent
    let bound : Int := max c.jobs.length ((sent.failedJobsHistoryLimit.getD 1).toInt +
      (sent.successfulJobsHistoryLimit.getD 3).toInt + 1 + k)
    bound < 2 ^ 31 → Along (step env cronJob) (FailsAtMost env cronJob k) c moves →
      ((run env cronJob c moves).jobs.length : Int) ≤ bound := by
  intro cronJob bound hfits hfails
  have hreplaces : Replaces cronJob (sent.failedJobsHistoryLimit.getD 1)
      (sent.successfulJobsHistoryLimit.getD 3) :=
    replaces_applyDefaults hpolicy hlimits
  have hstep : ∀ c' move, FailsAtMost env cronJob k c' move → (c'.jobs.length : Int) ≤ bound →
      ((step env cronJob c' move).jobs.length : Int) ≤ bound := by
    intro c' move hmove hle
    cases move with
    | update name status =>
      exact le_trans (Int.ofNat_le.mpr (evolves_update c' name status).length_le) hle
    | clock t => exact hle
    | reconcile script =>
      obtain hfewer | hfew := reconcile_bounded env hreplaces script (c := c') (by omega)
      · exact le_trans (Int.ofNat_le.mpr hfewer) hle
      · have hk : (failedDeletes (reconcile env cronJob script ⟨c', []⟩).2.calls).length ≤ k := hmove
        exact le_trans hfew (le_max_of_le_right (by omega))
  exact hfails.invariant hstep (le_max_left _ _)

/-- Two hours of a CronJob that keeps no finished Jobs, with one that could not be deleted. -/
theorem run_bounded_two_hours :
    let sent := report .replaceConcurrent (some 0)
    let cronJob := CronJobWebhook.CronJobCustomDefaulter.registered.applyDefaults sent
    let script := { undisturbed (newYear + hour) with deleteSuccessful := fun _ => ⟨[], .failed⟩ }
    let moves : List Move := [.reconcile (undisturbed newYear),
      .update "report-1735689600" ⟨[⟨.complete, .conditionTrue⟩], some newYear⟩, .reconcile script]
    (run hourly cronJob .start moves).jobs.length = 2 ∧
      ((run hourly cronJob .start moves).jobs.length : Int) ≤ 2 := by
  intro sent cronJob script moves
  have hlimits : Admitted sent := by
    intro type limit hlimit
    cases type <;> cases hlimit <;> decide
  have hfails : Along (step hourly cronJob) (FailsAtMost hourly cronJob 1) .start moves := by
    decide +kernel
  exact ⟨by decide +kernel, run_bounded rfl hlimits (by decide) hfails⟩

end CronJobController

end SideProjects
