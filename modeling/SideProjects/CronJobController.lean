import Mathlib.Data.List.Nodup

/-!
# The CronJob controller

`kubebuilder-tutorial/internal/controller/cronjob_controller.go`. `reconcile` lists the children of
a CronJob, deletes finished ones beyond the history limits, and creates a Job for the latest
scheduled time that has been missed.

The API server is a `Cluster`: the child Jobs and the clock. A `Script` says how the calls of one
`Reconcile` go: whether each succeeds, what the clock reads, and what happens to the Jobs just
before it. Code from other packages is taken from an `Env`. `Status().Update` hands back the status
it was given, and a background `Delete` removes the Job.
-/

namespace SideProjects

namespace CronJobController

/-! ## Time -/

/-- Nanoseconds since the zero `time.Time`, the beginning of year 1. -/
abbrev Time := Int

abbrev Duration := Int64

def second : Duration := 1000000000

def Time.add (t : Time) (d : Duration) : Time := t + d.toInt

/-- `t.Sub(u)`, the nearest `Duration` to the difference. -/
def Time.sub (t u : Time) : Duration :=
  Int64.ofInt (max Int64.minValue.toInt (min Int64.maxValue.toInt (t - u)))

def Time.isZero (t : Time) : Bool := t == 0

/-- Seconds since 1970. -/
def Time.unix (t : Time) : Int := t / 1000000000 - 62135596800

/-! ## Objects -/

inductive JobConditionType
  | complete
  | failed
  | other (name : String)
  deriving DecidableEq, Repr

inductive ConditionStatus
  | conditionTrue
  | conditionFalse
  | conditionUnknown
  deriving DecidableEq, Repr

structure JobCondition where
  type : JobConditionType
  status : ConditionStatus
  deriving DecidableEq, Repr

structure JobStatus where
  conditions : List JobCondition
  startTime : Option Time
  deriving DecidableEq, Repr

abbrev StringMap := String → Option String

structure Job where
  name : String
  namespaceName : String
  labels : StringMap
  annotations : StringMap
  status : JobStatus

inductive ConcurrencyPolicy
  | allowConcurrent
  | forbidConcurrent
  | replaceConcurrent
  | other (name : String)
  deriving DecidableEq, Repr

structure CronJob where
  name : String
  namespaceName : String
  creationTimestamp : Time
  schedule : String
  startingDeadlineSeconds : Option Int64
  concurrencyPolicy : ConcurrencyPolicy
  suspend : Option Bool
  templateLabels : StringMap
  templateAnnotations : StringMap
  successfulJobsHistoryLimit : Option Int32
  failedJobsHistoryLimit : Option Int32

structure CronJobStatus where
  active : List String
  lastScheduleTime : Option Time
  deriving DecidableEq, Repr

/-- What `sort.Slice` asks of its comparison. -/
structure StrictWeak (less : Job → Job → Bool) : Prop where
  asymm : ∀ a b, less a b = true → less b a = false
  split : ∀ a b c, less a b = true → less a c = true ∨ less c b = true

/-- What the controller takes from other packages. `sort.Slice` is not stable: it may give any
ordered permutation. -/
structure Env where
  /-- `cron.ParseStandard`, a schedule being its `Next`. -/
  parseStandard : String → Except String (Time → Time)
  /-- `Format` and `Parse` with `time.RFC3339`. -/
  format : Time → String
  parse : String → Except String Time
  sortSlice : (Job → Job → Bool) → List Job → List Job
  sortSlice_perm : ∀ less jobs, (sortSlice less jobs).Perm jobs
  sortSlice_sorted : ∀ less jobs, StrictWeak less →
    (sortSlice less jobs).Pairwise fun a b => less b a = false
  getReference : Job → Except String String
  setControllerReference : CronJob → Job → Except String Unit

def scheduledTimeAnnotation : String := "batch.tutorial.kubebuilder.io/scheduled-at"

/-! ## Children -/

def isJobFinished (job : Job) : Option JobConditionType :=
  (job.status.conditions.find? fun c =>
    (c.type == .complete || c.type == .failed) && c.status == .conditionTrue).map (·.type)

def getScheduledTimeForJob (env : Env) (job : Job) : Except String (Option Time) :=
  let timeRaw := (job.annotations scheduledTimeAnnotation).getD ""
  if timeRaw.length = 0 then .ok none
  else
    match env.parse timeRaw with
    | .error err => .error err
    | .ok timeParsed => .ok (some timeParsed)

structure Children where
  activeJobs : List Job
  successfulJobs : List Job
  failedJobs : List Job
  mostRecentTime : Option Time

def Children.put (c : Children) (job : Job) : Children :=
  match isJobFinished job with
  | none => { c with activeJobs := c.activeJobs ++ [job] }
  | some .failed => { c with failedJobs := c.failedJobs ++ [job] }
  | some .complete => { c with successfulJobs := c.successfulJobs ++ [job] }
  | some (.other _) => c

def Children.note (env : Env) (c : Children) (job : Job) : Children :=
  match getScheduledTimeForJob env job with
  | .error _ => c
  | .ok none => c
  | .ok (some scheduledTime) =>
    match c.mostRecentTime with
    | none => { c with mostRecentTime := some scheduledTime }
    | some mostRecentTime =>
      if mostRecentTime < scheduledTime then { c with mostRecentTime := some scheduledTime } else c

/-- The loop over the children. -/
def classify (env : Env) (childJobs : List Job) : Children :=
  childJobs.foldl (fun c job => (c.put job).note env job) ⟨[], [], [], none⟩

def statusOf (env : Env) (children : Children) : CronJobStatus where
  active := children.activeJobs.filterMap fun job => (env.getReference job).toOption
  lastScheduleTime := children.mostRecentTime

/-- The order of the clean-up: by start time, Jobs that have none first. -/
def startedBefore (a b : Job) : Bool :=
  match a.status.startTime, b.status.startTime with
  | none, t => t.isSome
  | some _, none => false
  | some s, some t => s < t

/-! ## The schedule -/

inductive ScheduleError
  | unparseable (schedule err : String)
  | tooManyMissed
  deriving DecidableEq, Repr

/-- The loop over the missed runs, which may still find `left` of them. -/
def lastMissedRun (next : Time → Time) (now : Time) : ℕ → Time → Time → Option Time
  | left, lastMissed, t =>
    if t > now then some lastMissed
    else
      match left with
      | 0 => none
      | left + 1 => lastMissedRun next now left t (next t)

def earliestTime (cronJob : CronJob) (lastScheduleTime : Option Time) (now : Time) : Time :=
  let earliest := lastScheduleTime.getD cronJob.creationTimestamp
  match cronJob.startingDeadlineSeconds with
  | none => earliest
  | some seconds =>
    let schedulingDeadline := Time.add now (-second * seconds)
    if schedulingDeadline > earliest then schedulingDeadline else earliest

/-- The last missed run, or the zero time, and the next run. -/
def getNextSchedule (env : Env) (cronJob : CronJob) (lastScheduleTime : Option Time) (now : Time) :
    Except ScheduleError (Time × Time) :=
  match env.parseStandard cronJob.schedule with
  | .error err => .error (.unparseable cronJob.schedule err)
  | .ok next =>
    let earliest := earliestTime cronJob lastScheduleTime now
    if earliest > now then .ok (0, next now)
    else
      match lastMissedRun next now 100 0 (next earliest) with
      | none => .error .tooManyMissed
      | some lastMissed => .ok (lastMissed, next now)

def tooLate (cronJob : CronJob) (missedRun now : Time) : Bool :=
  match cronJob.startingDeadlineSeconds with
  | none => false
  | some seconds => Time.add missedRun (seconds * second) < now

def constructJobForCronJob (env : Env) (cronJob : CronJob) (scheduledTime : Time) :
    Except String Job :=
  let job : Job :=
    { name := cronJob.name ++ "-" ++ toString (Time.unix scheduledTime)
      namespaceName := cronJob.namespaceName
      labels := cronJob.templateLabels
      annotations := Function.update cronJob.templateAnnotations scheduledTimeAnnotation
        (some (env.format scheduledTime))
      status := ⟨[], none⟩ }
  match env.setControllerReference cronJob job with
  | .error err => .error err
  | .ok () => .ok job

/-! ## The API server -/

/-- A Job's status after an update. A finished Job stays finished as it is. -/
def Job.update (job : Job) (status : JobStatus) : Job :=
  let updated := { job with status := status }
  if (isJobFinished job).isSome ∧ isJobFinished updated ≠ isJobFinished job then job else updated

/-- The child Jobs, no two of one name, the latest time the clock has read, and the Jobs the
controller has created. -/
structure Cluster where
  jobs : List Job
  unique : (jobs.map Job.name).Nodup
  clock : Time
  created : List Job

namespace Cluster

def update (c : Cluster) (name : String) (status : JobStatus) : Cluster :=
  { c with
    jobs := c.jobs.map fun job => if job.name = name then job.update status else job
    unique := by
      have h : ∀ job : Job, (if job.name = name then job.update status else job).name = job.name := by
        intro job
        unfold Job.update
        dsimp only
        split_ifs <;> rfl
      simpa [Function.comp_def, h] using c.unique }

def has (c : Cluster) (name : String) : Bool := c.jobs.any (·.name == name)

def delete (c : Cluster) (name : String) : Cluster :=
  { c with
    jobs := c.jobs.filter (·.name != name)
    unique := c.unique.sublist (List.filter_sublist.map _) }

def create (c : Cluster) (job : Job) (h : ¬ c.has job.name) : Cluster :=
  { c with
    jobs := c.jobs ++ [job]
    unique := by
      rw [List.map_append, List.nodup_append]
      refine ⟨c.unique, by simp, fun a ha b hb => ?_⟩
      obtain ⟨old, hold, rfl⟩ := List.mem_map.mp ha
      obtain rfl : b = job.name := by simpa using hb
      exact fun e => h (List.any_eq_true.mpr ⟨old, hold, by simpa using e⟩)
    created := c.created ++ [job] }

def advance (c : Cluster) (t : Time) : Cluster := { c with clock := max c.clock t }

end Cluster

/-! ## Calls -/

inductive Outcome
  | ok
  | notFound
  | failed
  deriving DecidableEq, Repr

/-- How a call goes: the updates that come before it, and its outcome. -/
structure Tick where
  updates : List (String × JobStatus)
  outcome : Outcome

/-- A call of the controller, with what came of it. -/
inductive Call
  | list (childJobs : List Job)
  | updateStatus (status : CronJobStatus)
  | delete (job : Job) (outcome : Outcome)
  | create (job : Job) (created : Bool)

/-- The cluster, and the calls of the running `Reconcile`. -/
structure World where
  cluster : Cluster
  calls : List Call

namespace World

def log (w : World) (call : Call) : World := { w with calls := w.calls ++ [call] }

def pass (w : World) (tick : Tick) : World :=
  { w with cluster := tick.updates.foldl (fun c u => c.update u.1 u.2) w.cluster }

def get (w : World) (tick : Tick) : Outcome × World := (tick.outcome, w.pass tick)

def updateStatus (w : World) (status : CronJobStatus) (tick : Tick) : Bool × World :=
  (tick.outcome = .ok, (w.pass tick).log (.updateStatus status))

def list (w : World) (tick : Tick) : Option (List Job) × World :=
  let w := w.pass tick
  if tick.outcome = .ok then (some w.cluster.jobs, w.log (.list w.cluster.jobs)) else (none, w)

/-- A Job that is gone is reported as `NotFound`, unless the call fails. -/
def delete (w : World) (job : Job) (tick : Tick) : Outcome × World :=
  let w := w.pass tick
  if tick.outcome = .failed then (.failed, w.log (.delete job .failed))
  else if w.cluster.has job.name then
    (.ok, { w with cluster := w.cluster.delete job.name }.log (.delete job .ok))
  else (.notFound, w.log (.delete job .notFound))

/-- A Job whose name exists is refused. -/
def create (w : World) (job : Job) (tick : Tick) : Bool × World :=
  let w := w.pass tick
  if tick.outcome = .ok then
    if h : w.cluster.has job.name then (false, w.log (.create job false))
    else (true, { w with cluster := w.cluster.create job h }.log (.create job true))
  else (false, w.log (.create job false))

/-- `r.Now()`, which may read anything. -/
def now (w : World) (t : Time) : Time × World := (t, { w with cluster := w.cluster.advance t })

end World

/-- How the calls of one `Reconcile` go. -/
structure Script where
  get : Tick
  list : Tick
  updateStatus : Tick
  deleteFailed : ℕ → Tick
  deleteSuccessful : ℕ → Tick
  /-- The readings of the clock: for `getNextSchedule`, `RequeueAfter`, the log and `tooLate`. -/
  nowSchedule : Time
  nowResult : Time
  nowLog : Time
  nowDeadline : Time
  deleteActive : ℕ → Tick
  create : Tick

/-! ## Reconcile -/

inductive ApiError
  | get
  | list
  | updateStatus
  | delete
  | create
  deriving DecidableEq, Repr

structure Result where
  requeueAfter : Duration
  err : Option ApiError
  deriving DecidableEq, Repr

/-- The loop over finished Jobs, the oldest first, at the `i`th. A failed `Delete` is logged. -/
def deleteOld (limit : Int32) (len : ℕ) (ticks : ℕ → Tick) : ℕ → List Job → World → World
  | _, [], w => w
  | i, job :: jobs, w =>
    if Int32.ofNat i ≥ Int32.ofNat len - limit then w
    else deleteOld limit len ticks (i + 1) jobs (w.delete job (ticks i)).2

def cleanUp (env : Env) (limit : Option Int32) (jobs : List Job) (ticks : ℕ → Tick) (w : World) :
    World :=
  match limit with
  | none => w
  | some limit =>
    let sorted := env.sortSlice startedBefore jobs
    deleteOld limit sorted.length ticks 0 sorted w

/-- The loop over the active Jobs, and whether it got through. -/
def deleteActive (ticks : ℕ → Tick) : ℕ → List Job → World → Bool × World
  | _, [], w => (true, w)
  | i, job :: jobs, w =>
    match w.delete job (ticks i) with
    | (.failed, w) => (false, w)
    | (_, w) => deleteActive ticks (i + 1) jobs w

/-- `tooLate`, which reads the clock only if there is a deadline. -/
def checkDeadline (cronJob : CronJob) (missedRun nowDeadline : Time) (w : World) : Bool × World :=
  if cronJob.startingDeadlineSeconds.isSome then
    let (now, w) := w.now nowDeadline
    (tooLate cronJob missedRun now, w)
  else (false, w)

/-- From the decision to start a run on. -/
def startRun (env : Env) (cronJob : CronJob) (script : Script) (activeJobs : List Job)
    (missedRun : Time) (scheduledResult : Result) (w : World) : Result × World :=
  let (deleted, w) :=
    if cronJob.concurrencyPolicy = .replaceConcurrent then
      deleteActive script.deleteActive 0 activeJobs w
    else (true, w)
  if !deleted then (⟨0, some .delete⟩, w)
  else
    match constructJobForCronJob env cronJob missedRun with
    | .error _ => (scheduledResult, w)
    | .ok job =>
      match w.create job script.create with
      | (false, w) => (⟨0, some .create⟩, w)
      | (true, w) => (scheduledResult, w)

/-- From the check for suspension on. -/
def schedule (env : Env) (cronJob : CronJob) (script : Script) (children : Children) (w : World) :
    Result × World :=
  if cronJob.suspend = some true then (⟨0, none⟩, w)
  else
    let (now, w) := w.now script.nowSchedule
    match getNextSchedule env cronJob (statusOf env children).lastScheduleTime now with
    | .error _ => (⟨0, none⟩, w)
    | .ok (missedRun, nextRun) =>
      let (now, w) := w.now script.nowResult
      let scheduledResult : Result := ⟨Time.sub nextRun now, none⟩
      let (_, w) := w.now script.nowLog
      if Time.isZero missedRun then (scheduledResult, w)
      else
        let (late, w) := checkDeadline cronJob missedRun script.nowDeadline w
        if late then (scheduledResult, w)
        else startRun env cronJob script children.activeJobs missedRun scheduledResult w

def reconcile (env : Env) (cronJob : CronJob) (script : Script) (w : World) : Result × World :=
  match w.get script.get with
  | (.notFound, w) => (⟨0, none⟩, w)
  | (.failed, w) => (⟨0, some .get⟩, w)
  | (.ok, w) =>
    match w.list script.list with
    | (none, w) => (⟨0, some .list⟩, w)
    | (some childJobs, w) =>
      let children := classify env childJobs
      match w.updateStatus (statusOf env children) script.updateStatus with
      | (false, w) => (⟨0, some .updateStatus⟩, w)
      | (true, w) =>
        let w := cleanUp env cronJob.failedJobsHistoryLimit children.failedJobs
          script.deleteFailed w
        let w := cleanUp env cronJob.successfulJobsHistoryLimit children.successfulJobs
          script.deleteSuccessful w
        schedule env cronJob script children w

/-! ## Runs -/

inductive Move
  | update (name : String) (status : JobStatus)
  | clock (t : Time)
  | reconcile (script : Script)

def step (env : Env) (cronJob : CronJob) (c : Cluster) : Move → Cluster
  | .update name status => c.update name status
  | .clock t => c.advance t
  | .reconcile script => (reconcile env cronJob script ⟨c, []⟩).2.cluster

def run (env : Env) (cronJob : CronJob) (c : Cluster) (moves : List Move) : Cluster :=
  moves.foldl (step env cronJob) c

end CronJobController

end SideProjects
