import Mathlib.Data.List.Sort
import SideProjects.Lib.Runs
import SideProjects.Proofs.CronJobCalls

/-!
# Concurrency policies

`activeJobs` is exactly the unfinished children (`classify_activeJobs`). Whatever a reconcile and
the Jobs do, an unfinished Job that is there at the end, and was not created, was unfinished when
the children were listed. So `Replace`, which creates only once every one of these is gone, never
has two unfinished Jobs (`replace_unfinished`). `Forbid` is never looked at: a run that is due is
started whatever is unfinished (`forbid_two_unfinished`), and all is well only as long as no run
falls due while a child is unfinished (`forbid_unfinished`).
-/

namespace SideProjects

namespace CronJobController

def unfinished (job : Job) : Bool := (isJobFinished job).isNone

def Cluster.unfinishedJobs (c : Cluster) : List Job := c.jobs.filter unfinished

def finishedAs (type : JobConditionType) (job : Job) : Bool := isJobFinished job == some type

/-! ## The children -/

theorem note_eq (env : Env) (c : Children) (job : Job) :
    ∃ time, c.note env job = { c with mostRecentTime := time } := by
  unfold Children.note
  split
  · exact ⟨_, rfl⟩
  · exact ⟨_, rfl⟩
  · split
    · exact ⟨_, rfl⟩
    · split_ifs <;> exact ⟨_, rfl⟩

/-- A list that the loop over the children collects in order. -/
theorem classify_filter (env : Env) {f : Children → List Job} {p : Job → Bool}
    (hput : ∀ c job, f (c.put job) = f c ++ [job].filter p)
    (hnote : ∀ c time, f { c with mostRecentTime := time } = f c)
    (hnil : f ⟨[], [], [], none⟩ = []) (childJobs : List Job) :
    f (classify env childJobs) = childJobs.filter p := by
  have key : ∀ (jobs : List Job) (c : Children),
      f (jobs.foldl (fun c job => (c.put job).note env job) c) = f c ++ jobs.filter p := by
    intro jobs
    induction jobs with
    | nil => simp
    | cons job jobs ih =>
      intro c
      obtain ⟨time, ht⟩ := note_eq env (c.put job) job
      rw [List.foldl_cons, ih, ht, hnote, hput, List.append_assoc, ← List.filter_append,
        List.singleton_append]
  rw [classify, key, hnil, List.nil_append]

theorem classify_activeJobs (env : Env) (childJobs : List Job) :
    (classify env childJobs).activeJobs = childJobs.filter unfinished := by
  refine classify_filter env (fun c job => ?_) (fun _ _ => rfl) rfl childJobs
  unfold Children.put
  split <;> simp [unfinished, *]

theorem classify_failedJobs (env : Env) (childJobs : List Job) :
    (classify env childJobs).failedJobs = childJobs.filter (finishedAs .failed) := by
  refine classify_filter env (fun c job => ?_) (fun _ _ => rfl) rfl childJobs
  unfold Children.put
  split <;> simp [finishedAs, *]

theorem classify_successfulJobs (env : Env) (childJobs : List Job) :
    (classify env childJobs).successfulJobs = childJobs.filter (finishedAs .complete) := by
  refine classify_filter env (fun c job => ?_) (fun _ _ => rfl) rfl childJobs
  unfold Children.put
  split <;> simp [finishedAs, *]

/-- The clean-up takes Jobs from the front as long as the index stays below the surplus. -/
theorem surplus_front (limit : Int32) (len : ℕ) : ∀ (i : ℕ) (jobs : List Job),
    surplus limit len i jobs <+: jobs ∧
      ∀ k < (surplus limit len i jobs).length, Int32.ofNat (i + k) < Int32.ofNat len - limit
  | _, [] => ⟨List.prefix_rfl, by simp [surplus]⟩
  | i, job :: jobs => by
    obtain ⟨hpre, hlt⟩ := surplus_front limit len (i + 1) jobs
    unfold surplus
    split_ifs with hi
    · exact ⟨List.nil_prefix, by simp⟩
    · refine ⟨(List.prefix_cons_inj job).mpr hpre, fun k hk => ?_⟩
      rcases k with _ | k
      · exact Int32.not_le.mp hi
      · have := hlt k (by simpa using hk)
        rwa [Nat.add_right_comm, Nat.add_assoc] at this

theorem mem_of_mem_doomed {env : Env} {limit : Option Int32} {jobs : List Job} {job : Job}
    (h : job ∈ doomed env limit jobs) : job ∈ jobs := by
  unfold doomed at h
  split at h
  · simp at h
  · exact (env.sortSlice_perm _ _).subset ((surplus_front _ _ _ _).1.subset h)

/-- The clean-up goes for finished Jobs. -/
theorem finished_of_mem_oldJobs {env : Env} {cronJob : CronJob} {childJobs : List Job} {job : Job}
    (h : job ∈ oldJobs env cronJob (classify env childJobs)) : unfinished job = false := by
  unfold oldJobs at h
  rw [classify_failedJobs, classify_successfulJobs] at h
  have hf : ∃ type, finishedAs type job = true := by
    rcases List.mem_append.mp h with h | h
    · exact ⟨_, (List.mem_filter.mp (mem_of_mem_doomed h)).2⟩
    · exact ⟨_, (List.mem_filter.mp (mem_of_mem_doomed h)).2⟩
  obtain ⟨type, ht⟩ := hf
  have : isJobFinished job = some type := by simpa [finishedAs] using ht
  rw [unfinished, this]
  rfl

/-! ## Unfinished Jobs -/

theorem Became.unfinished {old new : Job} (h : Became old new) (hn : unfinished new = true) :
    CronJobController.unfinished old = true := by
  unfold CronJobController.unfinished at hn ⊢
  rcases hf : isJobFinished old with _ | type
  · rfl
  · rw [h.finished type hf] at hn
    cases hn

theorem Evolves.unfinished_le {gone : String → Prop} {c c' : Cluster} (h : Evolves gone c c') :
    c'.unfinishedJobs.length ≤ c.unfinishedJobs.length := by
  have hjobs := h.jobs
  unfold Cluster.unfinishedJobs
  generalize c.jobs = olds at hjobs
  generalize c'.jobs = news at hjobs
  induction hjobs with
  | nil => simp
  | @cons new old news olds hb _ ih =>
    simp only [List.filter_cons]
    by_cases hn : unfinished new = true
    · rw [if_pos hn, if_pos (hb.unfinished hn)]
      simpa using ih
    · rw [if_neg hn]
      split_ifs
      · exact ih.trans (Nat.le_succ _)
      · exact ih
  | @cons_right old news olds _ ih =>
    refine ih.trans ?_
    rw [List.filter_cons]
    split_ifs
    · exact Nat.le_succ _
    · exact Nat.le_refl _

theorem Evolves.unfinished_nil {gone : String → Prop} {c c' : Cluster} (h : Evolves gone c c')
    (hc : c.unfinishedJobs = []) : c'.unfinishedJobs = [] := by
  have := h.unfinished_le
  rw [hc] at this
  exact List.length_eq_zero_iff.mp (Nat.le_zero.mp this)

theorem unfinishedJobs_create {c : Cluster} {job : Job} {h : ¬ c.has job.name}
    (hc : c.unfinishedJobs = []) : (c.create job h).unfinishedJobs.length ≤ 1 := by
  have : (c.create job h).unfinishedJobs = c.unfinishedJobs ++ [job].filter unfinished :=
    List.filter_append _ _
  rw [this, hc, List.nil_append]
  exact List.length_filter_le _ _

/-- What `Started` leaves unfinished, if nothing unfinished is left before a `Create`. -/
theorem Started.unfinished_le {env : Env} {cronJob : CronJob} {activeJobs : List Job}
    {missedRun : Time} {w r : World} (h : Started env cronJob activeJobs missedRun w r)
    (hw : w.cluster.unfinishedJobs.length ≤ 1)
    (hnone : ∀ c, Evolves (Named (replaced cronJob activeJobs)) w.cluster c →
      (∀ job ∈ c.jobs, ¬ Named (replaced cronJob activeJobs) job.name) → c.unfinishedJobs = []) :
    r.cluster.unfinishedJobs.length ≤ 1 := by
  cases h with
  | given_up evolves => exact evolves.unfinished_le.trans hw
  | tried evolves none_left _ _ _ hcluster =>
    obtain ⟨-, hr⟩ | ⟨-, hh, hr⟩ := hcluster
    · rw [hr]
      exact evolves.unfinished_le.trans hw
    · rw [hr]
      exact unfinishedJobs_create (hnone _ evolves none_left)

/-- One reconcile, if nothing unfinished is left when a due run gets to its `Create`. -/
theorem reconcile_unfinished_le {env : Env} {cronJob : CronJob} {script : Script} {c : Cluster}
    (hc : c.unfinishedJobs.length ≤ 1)
    (hnone : ∀ {missedRun t : Time} {gone : String → Prop} {c₁ c₂ : Cluster}, script.CleansUp →
      script.due env cronJob c = some missedRun → Evolves gone ((c.listed script).advance t) c₁ →
      Evolves (Named (replaced cronJob (classify env (c.listed script).jobs).activeJobs)) c₁ c₂ →
      (∀ job ∈ c₂.jobs,
        ¬ Named (replaced cronJob (classify env (c.listed script).jobs).activeJobs) job.name) →
      c₂.unfinishedJobs = []) :
    (reconcile env cronJob script ⟨c, []⟩).2.cluster.unfinishedJobs.length ≤ 1 := by
  have hlisted := (evolves_listed c script).unfinished_le.trans hc
  cases reconcile_spec env cronJob script c with
  | unlisted evolves => exact evolves.unfinished_le.trans hc
  | failed evolves => exact evolves.unfinished_le.trans hlisted
  | idle _ _ _ evolves => exact evolves.unfinished_le.trans hlisted
  | due hclean hdue _ evolves _ _ started =>
    exact started.unfinished_le (evolves.unfinished_le.trans hlisted)
      fun c' evolves' none_left => hnone hclean hdue evolves evolves' none_left

/-! ## An hourly CronJob -/

def hour : Time := 3600000000000

/-- The first second of 2025. -/
def newYear : Time := 63871286400000000000

/-- A number for every other time. -/
def timeCode (t : Int) : ℕ := if 0 ≤ t then 2 * t.toNat else 2 * (-t).toNat - 1

def timeOfCode (n : ℕ) : Int := if n % 2 = 0 then n / 2 else -((n + 1) / 2)

theorem timeOfCode_timeCode (t : Int) : timeOfCode (timeCode t) = t := by
  unfold timeOfCode timeCode
  split_ifs <;> omega

/-- Every full hour is an activation. The times of the runs below are written as RFC 3339 has them,
all others in unary. -/
def hourly : Env where
  parseStandard _ := .ok fun t => (t / hour + 1) * hour
  format t :=
    if t = newYear then "2025-01-01T00:00:00Z"
    else if t = newYear + hour then "2025-01-01T01:00:00Z"
    else String.ofList (List.replicate (timeCode t + 1) 'x')
  parse s :=
    if s = "2025-01-01T00:00:00Z" then .ok newYear
    else if s = "2025-01-01T01:00:00Z" then .ok (newYear + hour)
    else .ok (timeOfCode (s.length - 1))
  sortSlice less jobs := jobs.insertionSort fun a b => less b a = false
  sortSlice_perm less jobs := List.perm_insertionSort _ jobs
  sortSlice_sorted less jobs h :=
    have : Std.Total fun a b => less b a = false := ⟨fun a b => by
      by_cases hab : less b a = true
      · exact .inr (h.asymm b a hab)
      · exact .inl (by simpa using hab)⟩
    have : IsTrans Job fun a b => less b a = false := ⟨fun a b c hab hbc => by
      by_contra hca
      rcases h.split c a b (by simpa using hca) with hcb | hba
      · simp [hcb] at hbc
      · simp [hba] at hab⟩
    List.pairwise_insertionSort _ jobs
  getReference job := .ok job.name
  setControllerReference _ _ := .ok ()

/-- A CronJob of the last minutes of 2024. -/
def report (policy : ConcurrencyPolicy) (limit : Option Int32) : CronJob where
  name := "report"
  namespaceName := "default"
  creationTimestamp := newYear - 60000000000
  schedule := "@hourly"
  startingDeadlineSeconds := none
  concurrencyPolicy := policy
  suspend := none
  templateLabels _ := none
  templateAnnotations _ := none
  successfulJobsHistoryLimit := limit
  failedJobsHistoryLimit := limit

def Cluster.start : Cluster := ⟨[], List.nodup_nil, newYear - 60000000000, []⟩

/-- Every call succeeds, and the clock reads `t`. -/
def undisturbed (t : Time) : Script where
  get := ⟨[], .ok⟩
  list := ⟨[], .ok⟩
  updateStatus := ⟨[], .ok⟩
  deleteFailed _ := ⟨[], .ok⟩
  deleteSuccessful _ := ⟨[], .ok⟩
  nowSchedule := t
  nowResult := t
  nowLog := t
  nowDeadline := t
  deleteActive _ := ⟨[], .ok⟩
  create := ⟨[], .ok⟩

/-! ## Replace -/

/-- No unfinished Job survives the loop over the active Jobs of `Replace`. -/
theorem unfinished_nil_of_replaced {env : Env} {cronJob : CronJob} {gone : String → Prop}
    {listed c c' : Cluster} {t : Time}
    (hp : cronJob.concurrencyPolicy = .replaceConcurrent) (h : Evolves gone (listed.advance t) c)
    (h' : Evolves (Named (replaced cronJob (classify env listed.jobs).activeJobs)) c c')
    (hnone : ∀ job ∈ c'.jobs,
      ¬ Named (replaced cronJob (classify env listed.jobs).activeJobs) job.name) :
    c'.unfinishedJobs = [] := by
  refine List.filter_eq_nil_iff.mpr fun job hjob hu => hnone job hjob ?_
  obtain ⟨mid, hmid, hb'⟩ := h'.old hjob
  obtain ⟨was, hwas, hb⟩ := h.old hmid
  refine ⟨was, ?_, (hb.trans hb').name.symm⟩
  rw [replaced, if_pos hp, classify_activeJobs]
  exact List.mem_filter.mpr ⟨hwas, (hb.trans hb').unfinished hu⟩

theorem reconcile_replace {env : Env} {cronJob : CronJob}
    (hp : cronJob.concurrencyPolicy = .replaceConcurrent) (script : Script) {c : Cluster}
    (hc : c.unfinishedJobs.length ≤ 1) :
    (reconcile env cronJob script ⟨c, []⟩).2.cluster.unfinishedJobs.length ≤ 1 :=
  reconcile_unfinished_le hc fun _ _ evolves evolves' hnone =>
    unfinished_nil_of_replaced hp evolves evolves' hnone

/-- Calls without a `Create`. -/
def NoCreate (calls : List Call) : Prop := ∀ job created, .create job created ∉ calls

theorem Deletes.noCreate {jobs : List Job} {calls : List Call} (h : Deletes jobs calls) :
    NoCreate calls := by
  intro job created hm
  obtain ⟨_, _, _, he⟩ := h _ hm
  cases he

/-- A reconcile that does not get to a `Create`. -/
theorem noCreate_cleaned {childJobs : List Job} {status : CronJobStatus}
    {oldJobs activeJobs : List Job} {old active : List Call} (hold : Attempts oldJobs old)
    (hactive : Deletes activeJobs active) :
    NoCreate ([.list childJobs, .updateStatus status] ++ old ++ active) := by
  intro job created hm
  simp only [List.cons_append, List.nil_append, List.mem_cons, reduceCtorEq, false_or,
    List.mem_append] at hm
  rcases hm with hm | hm
  · exact hold.deletes.noCreate job created hm
  · exact hactive.noCreate job created hm

/-- A reconcile that fails to delete an active Job does not go on to a `Create`. -/
theorem noCreate_of_failed {env : Env} {cronJob : CronJob} {script : Script} {c : Cluster}
    {calls : List Call} (h : Issued env cronJob script c calls) {job : Job}
    (hu : unfinished job = true) (hf : .delete job .failed ∈ calls) : NoCreate calls := by
  cases h with
  | unlisted => simp at hf
  | failed => simp at hf
  | cleaned _ attempts deletes => exact noCreate_cleaned attempts deletes
  | created _ _ attempts _ succeed =>
    simp only [List.cons_append, List.nil_append, List.mem_cons, reduceCtorEq, List.mem_append,
      List.not_mem_nil, or_false, false_or] at hf
    rcases hf with hf | hf
    · obtain ⟨old, hold, outcome, he⟩ := attempts.deletes _ hf
      rw [← (Call.delete.inj he).1] at hold
      rw [finished_of_mem_oldJobs hold] at hu
      cases hu
    · exact absurd hf (succeed job)

/-- With `Replace`, one unfinished Job at most stays one at most, and a reconcile that fails to
delete an active Job creates none. -/
theorem replace_unfinished {env : Env} {cronJob : CronJob}
    (hp : cronJob.concurrencyPolicy = .replaceConcurrent) {c : Cluster}
    (hc : c.unfinishedJobs.length ≤ 1) (moves : List Move) :
    (run env cronJob c moves).unfinishedJobs.length ≤ 1 ∧
      ∀ script job, unfinished job = true →
        .delete job .failed ∈
          (reconcile env cronJob script ⟨run env cronJob c moves, []⟩).2.calls →
        NoCreate (reconcile env cronJob script ⟨run env cronJob c moves, []⟩).2.calls := by
  refine ⟨List.foldlRecOn (motive := fun c => c.unfinishedJobs.length ≤ 1) moves (step env cronJob)
    hc fun c' hc' move _ => ?_,
    fun script job hu hf => noCreate_of_failed (reconcile_issued env cronJob script _) hu hf⟩
  cases move with
  | update name status => exact (evolves_update c' name status).unfinished_le.trans hc'
  | clock t => exact hc'
  | reconcile script => exact reconcile_replace hp script hc'

/-- The run of one o'clock replaces that of midnight. -/
theorem replace_unfinished_hourly :
    let cronJob := report .replaceConcurrent none
    let c := run hourly cronJob .start
      [.reconcile (undisturbed newYear), .reconcile (undisturbed (newYear + hour))]
    cronJob.concurrencyPolicy = .replaceConcurrent ∧
      c.jobs.map Job.name = ["report-1735693200"] ∧ c.unfinishedJobs.length ≤ 1 :=
  ⟨rfl, by decide +kernel, (replace_unfinished rfl (by decide) _).1⟩

/-! ## Forbid -/

/-- A reconcile that, if it gets to the clean-up, finds every child finished or no run due. -/
def Unhindered (env : Env) (cronJob : CronJob) (c : Cluster) : Move → Prop
  | .reconcile script => script.CleansUp →
    (∀ job ∈ (c.listed script).jobs, unfinished job = false) ∨ script.due env cronJob c = none
  | _ => True

theorem Deletes.not_list {jobs childJobs : List Job} {calls : List Call} (h : Deletes jobs calls) :
    .list childJobs ∉ calls := by
  intro hm
  obtain ⟨_, _, _, he⟩ := h _ hm
  cases he

/-- The children a reconcile has listed. -/
theorem Issued.list_eq {env : Env} {cronJob : CronJob} {script : Script} {c : Cluster}
    {calls : List Call} (h : Issued env cronJob script c calls) {childJobs : List Job}
    (hl : .list childJobs ∈ calls) : childJobs = (c.listed script).jobs := by
  cases h with
  | unlisted => simp at hl
  | failed => simpa using hl
  | cleaned _ attempts deletes => simpa [attempts.deletes.not_list, deletes.not_list] using hl
  | created _ _ attempts deletes => simpa [attempts.deletes.not_list, deletes.not_list] using hl

theorem noCreate_of_unhindered {env : Env} {cronJob : CronJob} {script : Script} {c : Cluster}
    {calls : List Call} (h : Issued env cronJob script c calls)
    (hu : Unhindered env cronJob c (.reconcile script)) {childJobs : List Job}
    (hl : .list childJobs ∈ calls) (hjobs : ∃ job ∈ childJobs, unfinished job = true) :
    NoCreate calls := by
  obtain rfl := h.list_eq hl
  obtain ⟨job, hjob, hju⟩ := hjobs
  cases h with
  | unlisted => simp at hl
  | failed => simp [NoCreate]
  | cleaned _ attempts deletes => exact noCreate_cleaned attempts deletes
  | created hclean hdue =>
    rcases hu hclean with hall | hnone
    · rw [hall job hjob] at hju
      cases hju
    · rw [hnone] at hdue
      cases hdue

theorem reconcile_unhindered {env : Env} {cronJob : CronJob} {script : Script} {c : Cluster}
    (hu : Unhindered env cronJob c (.reconcile script)) (hc : c.unfinishedJobs.length ≤ 1) :
    (reconcile env cronJob script ⟨c, []⟩).2.cluster.unfinishedJobs.length ≤ 1 := by
  refine reconcile_unfinished_le hc fun hclean hdue evolves evolves' _ =>
    evolves'.unfinished_nil (evolves.unfinished_nil ?_)
  rcases hu hclean with hall | hnone
  · exact List.filter_eq_nil_iff.mpr fun job hjob hju => by simp [hall job hjob] at hju
  · rw [hnone] at hdue
    cases hdue

theorem step_unhindered {env : Env} {cronJob : CronJob} {c : Cluster} {move : Move}
    (hu : Unhindered env cronJob c move) (hc : c.unfinishedJobs.length ≤ 1) :
    (step env cronJob c move).unfinishedJobs.length ≤ 1 := by
  cases move with
  | update name status => exact (evolves_update c name status).unfinished_le.trans hc
  | clock t => exact hc
  | reconcile script => exact reconcile_unhindered hu hc

/-- In a run in which no run of the schedule falls due while a listed child is unfinished, no
reconcile creates a Job when it has listed an unfinished one, and from no unfinished Job on there is
never more than one. The policy does not matter, so this is all there is to `Forbid`. -/
theorem forbid_unfinished {env : Env} {cronJob : CronJob} {c : Cluster} {moves : List Move}
    (h : Along (step env cronJob) (Unhindered env cronJob) c moves) :
    (∀ before script after, moves = before ++ .reconcile script :: after → ∀ childJobs,
      .list childJobs ∈ (reconcile env cronJob script ⟨run env cronJob c before, []⟩).2.calls →
      (∃ job ∈ childJobs, unfinished job = true) →
      NoCreate (reconcile env cronJob script ⟨run env cronJob c before, []⟩).2.calls) ∧
    (c.unfinishedJobs = [] → ∀ before after, moves = before ++ after →
      (run env cronJob c before).unfinishedJobs.length ≤ 1) := by
  refine ⟨?_, ?_⟩
  · rintro before script after rfl childJobs hl hjobs
    obtain ⟨-, hu, -⟩ := along_append.mp h
    exact noCreate_of_unhindered (reconcile_issued env cronJob script _) hu hl hjobs
  · rintro hc before after rfl
    have hstart : c.unfinishedJobs.length ≤ 1 := by rw [hc]; exact Nat.zero_le 1
    exact (along_append.mp h).1.invariant (fun _ _ => step_unhindered) hstart

/-- The run of midnight is over when that of one o'clock falls due. -/
theorem forbid_unfinished_hourly :
    let cronJob := report .forbidConcurrent none
    let moves : List Move := [.reconcile (undisturbed newYear),
      .update "report-1735689600" ⟨[⟨.complete, .conditionTrue⟩], some newYear⟩,
      .reconcile (undisturbed (newYear + hour))]
    Along (step hourly cronJob) (Unhindered hourly cronJob) .start moves ∧
      (run hourly cronJob .start moves).jobs.length = 2 ∧
      (run hourly cronJob .start moves).unfinishedJobs.length ≤ 1 := by
  intro cronJob moves
  have h : Along (step hourly cronJob) (Unhindered hourly cronJob) .start moves :=
    ⟨fun _ => .inl (by decide +kernel), trivial, fun _ => .inl (by decide +kernel), trivial⟩
  exact ⟨h, by decide +kernel, (forbid_unfinished h).2 rfl moves [] (List.append_nil _).symm⟩

/-- With `Forbid`, the run of one o'clock is started while that of midnight is listed and
unfinished. -/
theorem forbid_two_unfinished :
    let cronJob := report .forbidConcurrent none
    let midnight := run hourly cronJob .start [.reconcile (undisturbed newYear)]
    let one := (reconcile hourly cronJob (undisturbed (newYear + hour)) ⟨midnight, []⟩).2
    cronJob.concurrencyPolicy = .forbidConcurrent ∧ Cluster.start.unfinishedJobs = [] ∧
      (∃ childJobs, .list childJobs ∈ one.calls ∧ (∃ job ∈ childJobs, unfinished job = true) ∧
        ∃ job, .create job true ∈ one.calls) ∧
      one.cluster.unfinishedJobs.map Job.name = ["report-1735689600", "report-1735693200"] :=
  ⟨rfl, rfl, ⟨_, .head _, ⟨_, .head _, rfl⟩, _, .tail _ (.tail _ (.head _))⟩, by decide +kernel⟩

end CronJobController

end SideProjects
