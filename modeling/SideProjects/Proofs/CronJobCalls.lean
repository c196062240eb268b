import Mathlib.Data.List.Forall2
import Mathlib.Order.Lattice
import Mathlib.Algebra.Order.Ring.Int
import SideProjects.CronJobController

/-!
# What a reconcile does to the cluster

Apart from its one `Create`, a `Reconcile` and what happens meanwhile only change statuses and
delete: every Job that is there was there, a Job that has finished stays finished, and a Job is gone
only if one of its name was to be deleted (`Evolves`). Each loop of `reconcile` is such a change,
with the names it deletes, and `reconcile_spec` puts them together.
-/

namespace SideProjects

namespace CronJobController

/-- The status of a Job has moved on. -/
structure Became (old new : Job) : Prop where
  name : new.name = old.name
  annotations : new.annotations = old.annotations
  finished : ∀ type, isJobFinished old = some type → isJobFinished new = some type

theorem Became.refl (job : Job) : Became job job := ⟨rfl, rfl, fun _ h => h⟩

theorem Became.trans {a b c : Job} (h : Became a b) (h' : Became b c) : Became a c :=
  ⟨h'.name.trans h.name, h'.annotations.trans h.annotations,
    fun type ht => h'.finished type (h.finished type ht)⟩

theorem became_update (job : Job) (status : JobStatus) : Became job (job.update status) := by
  unfold Job.update
  dsimp only
  split_ifs with h
  · exact .refl job
  · refine ⟨rfl, rfl, fun type ht => ?_⟩
    have hs : (isJobFinished job).isSome := by rw [ht]; rfl
    rw [← ht]
    by_contra hne
    exact h ⟨hs, hne⟩

instance : Std.Refl fun new old : Job => Became old new := ⟨Became.refl⟩

instance : IsTrans Job fun new old => Became old new := ⟨fun _ _ _ h h' => h'.trans h⟩

/-- From `c` to `c'` statuses move on, and Jobs whose name is `gone` may be deleted. -/
structure Evolves (gone : String → Prop) (c c' : Cluster) : Prop where
  jobs : List.SublistForall₂ (fun new old => Became old new) c'.jobs c.jobs
  kept : ∀ job ∈ c.jobs, ¬ gone job.name → ∃ new ∈ c'.jobs, Became job new
  clock : c'.clock = c.clock
  created : c'.created = c.created

/-- No Job is gone. -/
abbrev Nobody : String → Prop := fun _ => False

theorem exists_of_sublistForall₂ {α β : Type*} {R : α → β → Prop} {l₁ : List α} {l₂ : List β}
    (h : List.SublistForall₂ R l₁ l₂) {a : α} (ha : a ∈ l₁) : ∃ b ∈ l₂, R a b := by
  induction h with
  | nil => simp at ha
  | cons hr _ ih =>
    rcases List.mem_cons.mp ha with rfl | ha
    · exact ⟨_, List.mem_cons_self, hr⟩
    · obtain ⟨b, hb, hab⟩ := ih ha
      exact ⟨b, List.mem_cons_of_mem _ hb, hab⟩
  | cons_right _ ih =>
    obtain ⟨b, hb, hab⟩ := ih ha
    exact ⟨b, List.mem_cons_of_mem _ hb, hab⟩

namespace Evolves

variable {gone gone' : String → Prop} {c c' c'' : Cluster}

theorem refl (gone : String → Prop) (c : Cluster) : Evolves gone c c where
  jobs := Std.Refl.refl _
  kept job hjob _ := ⟨job, hjob, .refl job⟩
  clock := rfl
  created := rfl

theorem trans (h : Evolves gone c c') (h' : Evolves gone c' c'') : Evolves gone c c'' where
  jobs := IsTrans.trans _ _ _ h'.jobs h.jobs
  kept job hjob hg := by
    obtain ⟨job', hjob', hb⟩ := h.kept job hjob hg
    obtain ⟨job'', hjob'', hb'⟩ := h'.kept job' hjob' (by rwa [hb.name])
    exact ⟨job'', hjob'', hb.trans hb'⟩
  clock := h'.clock.trans h.clock
  created := h'.created.trans h.created

theorem mono (h : Evolves gone c c') (hg : ∀ name, gone name → gone' name) : Evolves gone' c c' :=
  { h with kept := fun job hjob hn => h.kept job hjob fun hg' => hn (hg _ hg') }

theorem weaken (h : Evolves Nobody c c') : Evolves gone c c' := h.mono fun _ => False.elim

theorem old (h : Evolves gone c c') {new : Job} (hn : new ∈ c'.jobs) :
    ∃ job ∈ c.jobs, Became job new := exists_of_sublistForall₂ h.jobs hn

end Evolves

/-! ## Calls -/

/-- One of `jobs` has this name. -/
def Named (jobs : List Job) (name : String) : Prop := ∃ job ∈ jobs, job.name = name

theorem Named.mono {jobs jobs' : List Job} {name : String} (h : Named jobs name)
    (hj : jobs ⊆ jobs') : Named jobs' name := by
  obtain ⟨job, hjob, hn⟩ := h
  exact ⟨job, hj hjob, hn⟩

theorem sublistForall₂_map {f : Job → Job} (hf : ∀ job, Became job (f job)) : ∀ jobs : List Job,
    List.SublistForall₂ (fun new old => Became old new) (jobs.map f) jobs
  | [] => .nil
  | job :: jobs => .cons (hf job) (sublistForall₂_map hf jobs)

theorem evolves_update (c : Cluster) (name : String) (status : JobStatus) :
    Evolves Nobody c (c.update name status) := by
  have hb : ∀ job : Job, Became job (if job.name = name then job.update status else job) := by
    intro job
    split_ifs
    · exact became_update job status
    · exact .refl job
  exact
    { jobs := sublistForall₂_map hb c.jobs
      kept := fun job hjob _ => ⟨_, List.mem_map.mpr ⟨job, hjob, rfl⟩, hb job⟩
      clock := rfl
      created := rfl }

theorem evolves_delete (c : Cluster) (name : String) :
    Evolves (· = name) c (c.delete name) where
  jobs := List.Sublist.sublistForall₂ List.filter_sublist
  kept job hjob hn := ⟨job, List.mem_filter.mpr ⟨hjob, by simpa using hn⟩, .refl job⟩
  clock := rfl
  created := rfl

theorem evolves_pass (w : World) (tick : Tick) : Evolves Nobody w.cluster (w.pass tick).cluster := by
  unfold World.pass
  generalize w.cluster = c
  dsimp only
  induction tick.updates generalizing c with
  | nil => exact .refl _ c
  | cons u us ih => exact (evolves_update c u.1 u.2).trans (ih _)

theorem not_has {c : Cluster} {name : String} (h : ¬ c.has name) :
    ∀ job ∈ c.jobs, job.name ≠ name := by
  intro job hjob hn
  exact h (List.any_eq_true.mpr ⟨job, hjob, by simpa using hn⟩)

theorem delete_spec (w : World) (job : Job) (tick : Tick) :
    Evolves (· = job.name) w.cluster (w.delete job tick).2.cluster ∧
      ((w.delete job tick).1 ≠ .failed →
        ∀ other ∈ (w.delete job tick).2.cluster.jobs, other.name ≠ job.name) ∧
      (w.delete job tick).2.calls = w.calls ++ [.delete job (w.delete job tick).1] := by
  have hpass : Evolves (· = job.name) w.cluster (w.pass tick).cluster :=
    (evolves_pass w tick).weaken
  unfold World.delete
  dsimp only
  split_ifs with hf hh
  · exact ⟨hpass, fun h => absurd rfl h, rfl⟩
  · refine ⟨hpass.trans (evolves_delete _ _), fun _ other ho => ?_, rfl⟩
    simpa using (List.mem_filter.mp ho).2
  · exact ⟨hpass, fun _ => not_has hh, rfl⟩

/-- The Jobs the clean-up tries to delete. -/
def surplus (limit : Int32) (len : ℕ) : ℕ → List Job → List Job
  | _, [] => []
  | i, job :: jobs =>
    if Int32.ofNat i ≥ Int32.ofNat len - limit then [] else job :: surplus limit len (i + 1) jobs

/-- Calls that delete some of `jobs`. -/
def Deletes (jobs : List Job) (calls : List Call) : Prop :=
  ∀ call ∈ calls, ∃ job ∈ jobs, ∃ outcome, call = .delete job outcome

theorem Deletes.mono {jobs jobs' : List Job} {l : List Call} (h : Deletes jobs l)
    (hj : jobs ⊆ jobs') : Deletes jobs' l := fun call hc => by
  obtain ⟨job, hjob, ho⟩ := h call hc
  exact ⟨job, hj hjob, ho⟩

/-- One call to delete each of `jobs`, in order. -/
def Attempts (jobs : List Job) (calls : List Call) : Prop :=
  List.Forall₂ (fun job call => ∃ outcome, call = .delete job outcome) jobs calls

theorem Attempts.deletes {jobs : List Job} {calls : List Call} (h : Attempts jobs calls) :
    Deletes jobs calls := by
  intro call hcall
  induction h with
  | nil => cases hcall
  | cons hhead _ ih =>
    rcases List.mem_cons.mp hcall with rfl | hcall
    · exact ⟨_, List.mem_cons_self, hhead⟩
    · obtain ⟨job, hjob, ho⟩ := ih hcall
      exact ⟨job, List.mem_cons_of_mem _ hjob, ho⟩

theorem deleteOld_spec (limit : Int32) (len : ℕ) (ticks : ℕ → Tick) :
    ∀ (i : ℕ) (jobs : List Job) (w : World),
      Evolves (Named (surplus limit len i jobs)) w.cluster
          (deleteOld limit len ticks i jobs w).cluster ∧
        ∃ calls, (deleteOld limit len ticks i jobs w).calls = w.calls ++ calls ∧
          Attempts (surplus limit len i jobs) calls
  | _, [], w => ⟨.refl _ _, [], (List.append_nil _).symm, .nil⟩
  | i, job :: jobs, w => by
    unfold deleteOld surplus
    split_ifs
    · exact ⟨.refl _ _, [], (List.append_nil _).symm, .nil⟩
    · obtain ⟨hd, -, hc⟩ := delete_spec w job (ticks i)
      obtain ⟨he, calls, hcalls, hdel⟩ :=
        deleteOld_spec limit len ticks (i + 1) jobs (w.delete job (ticks i)).2
      refine ⟨?_, .delete job (w.delete job (ticks i)).1 :: calls,
        by rw [hcalls, hc, List.append_assoc, List.singleton_append], .cons ⟨_, rfl⟩ hdel⟩
      refine (hd.mono ?_).trans (he.mono fun _ h => h.mono (List.subset_cons_self _ _))
      rintro _ rfl
      exact ⟨job, List.mem_cons_self, rfl⟩

/-- The Jobs the clean-up of one kind tries to delete. -/
def doomed (env : Env) (limit : Option Int32) (jobs : List Job) : List Job :=
  match limit with
  | none => []
  | some limit =>
    surplus limit (env.sortSlice startedBefore jobs).length 0 (env.sortSlice startedBefore jobs)

theorem cleanUp_spec (env : Env) (limit : Option Int32) (jobs : List Job) (ticks : ℕ → Tick)
    (w : World) :
    Evolves (Named (doomed env limit jobs)) w.cluster (cleanUp env limit jobs ticks w).cluster ∧
      ∃ calls, (cleanUp env limit jobs ticks w).calls = w.calls ++ calls ∧
        Attempts (doomed env limit jobs) calls := by
  cases limit with
  | none => exact ⟨.refl _ _, [], (List.append_nil _).symm, .nil⟩
  | some limit => exact deleteOld_spec _ _ _ _ _ _

/-- The loop over the active Jobs has ended in `r`: if it got through, none of them is left. -/
structure Cleared (jobs : List Job) (w : World) (r : Bool × World) : Prop where
  evolves : Evolves (Named jobs) w.cluster r.2.cluster
  none_left : r.1 = true → ∀ job ∈ r.2.cluster.jobs, ¬ Named jobs job.name
  calls : ∃ calls, r.2.calls = w.calls ++ calls ∧ Deletes jobs calls ∧
    (r.1 = true → ∀ job, .delete job .failed ∉ calls)

theorem Cleared.cons {job : Job} {jobs : List Job} {w : World} {tick : Tick} {r : Bool × World}
    (h : Cleared jobs (w.delete job tick).2 r) (hne : (w.delete job tick).1 ≠ .failed) :
    Cleared (job :: jobs) w r := by
  obtain ⟨hd, hgone, hc⟩ := delete_spec w job tick
  obtain ⟨calls, hcalls, hdel, hok⟩ := h.calls
  refine ⟨?_, fun hr job' hjob' => ?_, .delete job (w.delete job tick).1 :: calls, ?_, ?_,
    fun hr job' hm => ?_⟩
  · refine (hd.mono ?_).trans (h.evolves.mono fun _ hn => hn.mono (List.subset_cons_self _ _))
    rintro _ rfl
    exact ⟨job, List.mem_cons_self, rfl⟩
  · rintro ⟨old, hold, hname⟩
    rcases List.mem_cons.mp hold with rfl | hold
    · obtain ⟨was, hwas, hb⟩ := h.evolves.old hjob'
      exact hgone hne was hwas (hb.name.symm.trans hname.symm)
    · exact h.none_left hr job' hjob' ⟨old, hold, hname⟩
  · rw [hcalls, hc, List.append_assoc, List.singleton_append]
  · intro call hcall
    rcases List.mem_cons.mp hcall with rfl | hcall
    · exact ⟨job, List.mem_cons_self, _, rfl⟩
    · exact hdel.mono (List.subset_cons_self _ _) call hcall
  · rcases List.mem_cons.mp hm with he | hm
    · exact hne (Call.delete.inj he).2.symm
    · exact hok hr job' hm

theorem deleteActive_spec (ticks : ℕ → Tick) : ∀ (i : ℕ) (jobs : List Job) (w : World),
    Cleared jobs w (deleteActive ticks i jobs w)
  | _, [], w => ⟨.refl _ _, by simp [Named], [], (List.append_nil _).symm, by simp [Deletes], by simp⟩
  | i, job :: jobs, w => by
    unfold deleteActive
    split
    · rename_i w₁ hr
      obtain ⟨hd, -, hc⟩ := delete_spec w job (ticks i)
      rw [hr] at hd hc
      refine ⟨hd.mono fun _ h => ⟨job, List.mem_cons_self, h.symm⟩, by simp, _, hc, ?_, by simp⟩
      intro call hcall
      exact ⟨job, List.mem_cons_self, _, List.mem_singleton.mp hcall⟩
    · rename_i outcome w₁ hne hr
      have ih := deleteActive_spec ticks (i + 1) jobs w₁
      rw [show w₁ = (w.delete job (ticks i)).2 by rw [hr]] at ih ⊢
      exact ih.cons (by rw [hr]; exact hne)

/-! ## Starting a run -/

theorem create_spec (w : World) (job : Job) (tick : Tick) :
    ∃ c, Evolves Nobody w.cluster c ∧
      ((w.create job tick).1 = false ∧ (w.create job tick).2 = ⟨c, w.calls ++ [.create job false]⟩ ∨
        ∃ h, (w.create job tick).1 = true ∧
          (w.create job tick).2 = ⟨c.create job h, w.calls ++ [.create job true]⟩) := by
  refine ⟨(w.pass tick).cluster, evolves_pass w tick, ?_⟩
  unfold World.create
  dsimp only
  split_ifs with ho hh
  · exact .inl ⟨rfl, rfl⟩
  · exact .inr ⟨hh, rfl, rfl⟩
  · exact .inl ⟨rfl, rfl⟩

/-- The active Jobs a due run clears away. -/
def replaced (cronJob : CronJob) (activeJobs : List Job) : List Job :=
  if cronJob.concurrencyPolicy = .replaceConcurrent then activeJobs else []

/-- How a reconcile goes on once a run is due. -/
inductive Started (env : Env) (cronJob : CronJob) (activeJobs : List Job) (missedRun : Time)
    (w : World) : World → Prop
  /-- Without a `Create`. -/
  | given_up {r : World} {calls : List Call}
      (evolves : Evolves (Named (replaced cronJob activeJobs)) w.cluster r.cluster)
      (deletes : Deletes (replaced cronJob activeJobs) calls) (hcalls : r.calls = w.calls ++ calls) :
      Started env cronJob activeJobs missedRun w r
  /-- With a `Create`, all Jobs to be replaced being gone. -/
  | tried {r : World} {c : Cluster} {job : Job} {calls : List Call} {created : Bool}
      (evolves : Evolves (Named (replaced cronJob activeJobs)) w.cluster c)
      (none_left : ∀ job ∈ c.jobs, ¬ Named (replaced cronJob activeJobs) job.name)
      (deletes : Deletes (replaced cronJob activeJobs) calls)
      (succeed : ∀ job, .delete job .failed ∉ calls)
      (construct : constructJobForCronJob env cronJob missedRun = .ok job)
      (hcluster : created = false ∧ r.cluster = c ∨
        created = true ∧ ∃ h, r.cluster = c.create job h)
      (hcalls : r.calls = w.calls ++ (calls ++ [.create job created])) :
      Started env cronJob activeJobs missedRun w r

theorem startRun_spec (env : Env) (cronJob : CronJob) (script : Script) (activeJobs : List Job)
    (missedRun : Time) (scheduledResult : Result) (w : World) :
    Started env cronJob activeJobs missedRun w
      (startRun env cronJob script activeJobs missedRun scheduledResult w).2 := by
  have hclear : Cleared (replaced cronJob activeJobs) w
      (if cronJob.concurrencyPolicy = .replaceConcurrent then
        deleteActive script.deleteActive 0 activeJobs w
      else (true, w)) := by
    unfold replaced
    split_ifs
    · exact deleteActive_spec _ _ _ _
    · exact ⟨.refl _ _, by simp [Named], [], (List.append_nil _).symm, by simp [Deletes], by simp⟩
  unfold startRun
  dsimp only
  generalize (if cronJob.concurrencyPolicy = .replaceConcurrent then
    deleteActive script.deleteActive 0 activeJobs w else (true, w)) = r at hclear
  obtain ⟨deleted, w₁⟩ := r
  obtain ⟨calls, hcalls, hdel, hok⟩ := hclear.calls
  cases deleted with
  | false => exact .given_up hclear.evolves hdel hcalls
  | true =>
    simp only [Bool.not_true, Bool.false_eq_true, if_false]
    rcases hj : constructJobForCronJob env cronJob missedRun with err | job
    · exact .given_up hclear.evolves hdel hcalls
    obtain ⟨c, hc, ⟨hf, hw⟩ | ⟨hh, ht, hw⟩⟩ := create_spec w₁ job script.create
    all_goals
      have hev := hclear.evolves.trans hc.weaken
      have hnone : ∀ job ∈ c.jobs, ¬ Named (replaced cronJob activeJobs) job.name := by
        intro other ho
        obtain ⟨was, hwas, hb⟩ := hc.old ho
        rw [hb.name]
        exact hclear.none_left rfl was hwas
    · simp only [show w₁.create job script.create = (false, _) from Prod.ext hf hw]
      exact .tried hev hnone hdel (hok rfl) hj (.inl ⟨rfl, rfl⟩)
        (by rw [← List.append_assoc, ← hcalls])
    · simp only [show w₁.create job script.create = (true, _) from Prod.ext ht hw]
      exact .tried hev hnone hdel (hok rfl) hj (.inr ⟨rfl, hh, rfl⟩)
        (by rw [← List.append_assoc, ← hcalls])

/-! ## One reconcile -/

/-- The cluster when `List` is answered. -/
def Cluster.listed (c : Cluster) (script : Script) : Cluster :=
  ((World.pass ⟨c, []⟩ script.get).pass script.list).cluster

/-- The finished Jobs the clean-up tries to delete. -/
def oldJobs (env : Env) (cronJob : CronJob) (children : Children) : List Job :=
  doomed env cronJob.failedJobsHistoryLimit children.failedJobs ++
    doomed env cronJob.successfulJobsHistoryLimit children.successfulJobs

/-- The run to start, if one is due when the clock reads `now` and, for the deadline, `later`. -/
def dueRun (env : Env) (cronJob : CronJob) (lastScheduleTime : Option Time) (now later : Time) :
    Option Time :=
  if cronJob.suspend = some true then none
  else
    match getNextSchedule env cronJob lastScheduleTime now with
    | .error _ => none
    | .ok (missedRun, _) =>
      if Time.isZero missedRun ∨ tooLate cronJob missedRun later then none else some missedRun

/-- The run that is due in a reconcile that starts in `c`. -/
def Script.due (script : Script) (env : Env) (cronJob : CronJob) (c : Cluster) : Option Time :=
  dueRun env cronJob (classify env (c.listed script).jobs).mostRecentTime script.nowSchedule
    script.nowDeadline

/-- The calls up to the clean-up succeed. -/
def Script.CleansUp (script : Script) : Prop :=
  script.get.outcome = .ok ∧ script.list.outcome = .ok ∧ script.updateStatus.outcome = .ok

/-- How a reconcile goes. -/
inductive Reconciled (env : Env) (cronJob : CronJob) (script : Script) (c : Cluster) : World → Prop
  | unlisted {r : World} (evolves : Evolves Nobody c r.cluster) (hcalls : r.calls = [])
      (hclean : ¬ script.CleansUp) : Reconciled env cronJob script c r
  /-- The status update failed. -/
  | failed {r : World} {status : CronJobStatus}
      (evolves : Evolves Nobody (c.listed script) r.cluster)
      (hcalls : r.calls = [.list (c.listed script).jobs, .updateStatus status])
      (hclean : ¬ script.CleansUp) : Reconciled env cronJob script c r
  /-- No run is due, or the CronJob is suspended. -/
  | idle {r : World} {status : CronJobStatus} {calls : List Call} {t : Time}
      (hclean : script.CleansUp) (hdue : script.due env cronJob c = none)
      (hnow : cronJob.suspend = some true ∨ script.nowSchedule ≤ t)
      (evolves : Evolves (Named (oldJobs env cronJob (classify env (c.listed script).jobs)))
        ((c.listed script).advance t) r.cluster)
      (attempts : Attempts (oldJobs env cronJob (classify env (c.listed script).jobs)) calls)
      (hcalls : r.calls = [.list (c.listed script).jobs, .updateStatus status] ++ calls) :
      Reconciled env cronJob script c r
  /-- A run is due. -/
  | due {w r : World} {status : CronJobStatus} {calls : List Call} {t missedRun : Time}
      (hclean : script.CleansUp) (hdue : script.due env cronJob c = some missedRun)
      (hnow : script.nowSchedule ≤ t)
      (evolves : Evolves (Named (oldJobs env cronJob (classify env (c.listed script).jobs)))
        ((c.listed script).advance t) w.cluster)
      (attempts : Attempts (oldJobs env cronJob (classify env (c.listed script).jobs)) calls)
      (hcalls : w.calls = [.list (c.listed script).jobs, .updateStatus status] ++ calls)
      (started : Started env cronJob (classify env (c.listed script).jobs).activeJobs missedRun w r) :
      Reconciled env cronJob script c r

theorem Cluster.advance_advance (c : Cluster) (s t : Time) :
    (c.advance s).advance t = c.advance (max s t) := by
  simp [Cluster.advance, max_assoc]

theorem Cluster.advance_clock (c : Cluster) : c.advance c.clock = c := by
  simp [Cluster.advance]

theorem Evolves.advance {gone : String → Prop} {c c' : Cluster} (h : Evolves gone c c') (t : Time) :
    Evolves gone (c.advance t) (c'.advance t) :=
  { jobs := h.jobs
    kept := h.kept
    clock := by simp [Cluster.advance, h.clock]
    created := h.created }

theorem checkDeadline_spec (cronJob : CronJob) (missedRun nowDeadline : Time) (w : World) :
    ∃ t, checkDeadline cronJob missedRun nowDeadline w =
      (tooLate cronJob missedRun nowDeadline, ⟨w.cluster.advance t, w.calls⟩) := by
  unfold checkDeadline tooLate
  cases cronJob.startingDeadlineSeconds with
  | none => exact ⟨w.cluster.clock, by rw [Cluster.advance_clock]; rfl⟩
  | some seconds => exact ⟨nowDeadline, rfl⟩

theorem schedule_spec (env : Env) (cronJob : CronJob) (script : Script) (children : Children)
    (w : World) :
    ∃ t, (cronJob.suspend = some true ∨ script.nowSchedule ≤ t) ∧
      match dueRun env cronJob children.mostRecentTime script.nowSchedule script.nowDeadline with
      | none => (schedule env cronJob script children w).2 = ⟨w.cluster.advance t, w.calls⟩
      | some missedRun => script.nowSchedule ≤ t ∧
        Started env cronJob children.activeJobs missedRun ⟨w.cluster.advance t, w.calls⟩
          (schedule env cronJob script children w).2 := by
  unfold schedule dueRun
  by_cases hs : cronJob.suspend = some true
  · rw [if_pos hs, if_pos hs]
    exact ⟨w.cluster.clock, .inl hs, by rw [Cluster.advance_clock]⟩
  rw [if_neg hs, if_neg hs]
  simp only [World.now, statusOf]
  rcases getNextSchedule env cronJob children.mostRecentTime script.nowSchedule
    with err | ⟨missedRun, nextRun⟩
  · exact ⟨script.nowSchedule, .inr (le_refl _), rfl⟩
  simp only [Cluster.advance_advance]
  by_cases hz : Time.isZero missedRun = true
  · rw [if_pos hz, if_pos (.inl hz)]
    exact ⟨_, .inr (le_max_of_le_left (le_max_left _ _)), rfl⟩
  rw [if_neg hz]
  obtain ⟨t, ht⟩ := checkDeadline_spec cronJob missedRun script.nowDeadline
    ⟨w.cluster.advance (max (max script.nowSchedule script.nowResult) script.nowLog), w.calls⟩
  rw [Cluster.advance_advance] at ht
  have hle : script.nowSchedule ≤ max (max (max script.nowSchedule script.nowResult)
      script.nowLog) t := le_max_of_le_left (le_max_of_le_left (le_max_left _ _))
  refine ⟨_, .inr hle, ?_⟩
  simp only [ht]
  by_cases hl : tooLate cronJob missedRun script.nowDeadline = true
  · rw [if_pos (.inr hl), if_pos hl]
  · rw [if_neg (by simp [hz, hl]), if_neg hl]
    exact ⟨hle, startRun_spec _ _ _ _ _ _ _⟩

theorem cleanUps_spec (env : Env) (cronJob : CronJob) (script : Script) (children : Children)
    (w : World) :
    ∃ calls, Attempts (oldJobs env cronJob children) calls ∧
      let r := cleanUp env cronJob.successfulJobsHistoryLimit children.successfulJobs
        script.deleteSuccessful (cleanUp env cronJob.failedJobsHistoryLimit children.failedJobs
          script.deleteFailed w)
      Evolves (Named (oldJobs env cronJob children)) w.cluster r.cluster ∧
        r.calls = w.calls ++ calls := by
  obtain ⟨he₁, calls₁, hc₁, hd₁⟩ := cleanUp_spec env cronJob.failedJobsHistoryLimit
    children.failedJobs script.deleteFailed w
  obtain ⟨he₂, calls₂, hc₂, hd₂⟩ := cleanUp_spec env cronJob.successfulJobsHistoryLimit
    children.successfulJobs script.deleteSuccessful
    (cleanUp env cronJob.failedJobsHistoryLimit children.failedJobs script.deleteFailed w)
  refine ⟨calls₁ ++ calls₂, List.rel_append hd₁ hd₂, ?_, by rw [hc₂, hc₁, List.append_assoc]⟩
  exact (he₁.mono fun _ h => h.mono (List.subset_append_left _ _)).trans
    (he₂.mono fun _ h => h.mono (List.subset_append_right _ _))

theorem evolves_listed (c : Cluster) (script : Script) : Evolves Nobody c (c.listed script) :=
  (evolves_pass ⟨c, []⟩ script.get).trans (evolves_pass _ script.list)

/-- A reconcile that gets to the clean-up goes through it to the schedule. -/
theorem reconcile_eq_schedule (env : Env) (cronJob : CronJob) {script : Script}
    (hclean : script.CleansUp) (c : Cluster) :
    ∃ (w : World) (status : CronJobStatus) (calls : List Call),
      reconcile env cronJob script ⟨c, []⟩ =
        schedule env cronJob script (classify env (c.listed script).jobs) w ∧
      Evolves (Named (oldJobs env cronJob (classify env (c.listed script).jobs)))
        (c.listed script) w.cluster ∧
      Attempts (oldJobs env cronJob (classify env (c.listed script).jobs)) calls ∧
      w.calls = [.list (c.listed script).jobs, .updateStatus status] ++ calls := by
  obtain ⟨hg, hl, hu⟩ := hclean
  unfold reconcile
  simp only [World.get, hg, World.list, if_pos hl, World.updateStatus, hu, decide_true]
  set w : World := (World.pass (World.log (World.pass (World.pass ⟨c, []⟩ script.get) script.list)
    (.list (c.listed script).jobs)) script.updateStatus).log
      (.updateStatus (statusOf env (classify env (c.listed script).jobs))) with hw
  have hlisted : Evolves Nobody (c.listed script) w.cluster := evolves_pass _ script.updateStatus
  obtain ⟨calls, hdel, hev, hcalls⟩ :=
    cleanUps_spec env cronJob script (classify env (c.listed script).jobs) w
  exact ⟨_, _, calls, rfl, hlisted.weaken.trans hev, hdel, hcalls⟩

theorem reconcile_spec (env : Env) (cronJob : CronJob) (script : Script) (c : Cluster) :
    Reconciled env cronJob script c (reconcile env cronJob script ⟨c, []⟩).2 := by
  by_cases hclean : script.CleansUp
  · obtain ⟨w, status, calls, hr, hev, hdel, hcalls⟩ := reconcile_eq_schedule env cronJob hclean c
    rw [hr]
    obtain ⟨t, hnow, hcase⟩ :=
      schedule_spec env cronJob script (classify env (c.listed script).jobs) w
    rcases hd : script.due env cronJob c with _ | missedRun <;> rw [Script.due] at hd <;>
      rw [hd] at hcase
    · have hr : (schedule env cronJob script (classify env (c.listed script).jobs) w).2 =
        ⟨w.cluster.advance t, w.calls⟩ := hcase
      refine .idle hclean hd hnow ?_ hdel (by rw [hr]; exact hcalls)
      rw [hr]
      exact hev.advance t
    · exact .due (w := ⟨w.cluster.advance t, w.calls⟩) hclean hd hcase.1 (hev.advance t) hdel
        hcalls hcase.2
  unfold reconcile World.get
  rcases hg : script.get.outcome with _ | _ | _
  swap
  · exact .unlisted (evolves_pass ⟨c, []⟩ script.get) rfl hclean
  swap
  · exact .unlisted (evolves_pass ⟨c, []⟩ script.get) rfl hclean
  simp only [World.list]
  by_cases hl : script.list.outcome = .ok
  swap
  · rw [if_neg hl]
    exact .unlisted (evolves_listed c script) rfl hclean
  have hu : script.updateStatus.outcome ≠ .ok := fun hu => hclean ⟨hg, hl, hu⟩
  simp only [if_pos hl, World.updateStatus, hu, decide_false]
  exact .failed (evolves_pass _ script.updateStatus) rfl hclean

/-! ## The calls of a reconcile -/

/-- The calls a reconcile makes, in order. -/
inductive Issued (env : Env) (cronJob : CronJob) (script : Script) (c : Cluster) : List Call → Prop
  | unlisted (hclean : ¬ script.CleansUp) : Issued env cronJob script c []
  | failed (status : CronJobStatus) (hclean : ¬ script.CleansUp) :
      Issued env cronJob script c [.list (c.listed script).jobs, .updateStatus status]
  /-- After the clean-up, a due run may clear away active Jobs. -/
  | cleaned {status : CronJobStatus} {old active : List Call} (hclean : script.CleansUp)
      (attempts : Attempts (oldJobs env cronJob (classify env (c.listed script).jobs)) old)
      (deletes : Deletes (classify env (c.listed script).jobs).activeJobs active) :
      Issued env cronJob script c
        ([.list (c.listed script).jobs, .updateStatus status] ++ old ++ active)
  /-- A due run gets to its `Create`, all calls to delete active Jobs having succeeded. -/
  | created {status : CronJobStatus} {old active : List Call} {missedRun : Time} {job : Job}
      {created : Bool} (hclean : script.CleansUp) (hdue : script.due env cronJob c = some missedRun)
      (attempts : Attempts (oldJobs env cronJob (classify env (c.listed script).jobs)) old)
      (deletes : Deletes (classify env (c.listed script).jobs).activeJobs active)
      (succeed : ∀ job, .delete job .failed ∉ active)
      (construct : constructJobForCronJob env cronJob missedRun = .ok job) :
      Issued env cronJob script c
        ([.list (c.listed script).jobs, .updateStatus status] ++ old ++ active ++
          [.create job created])

theorem replaced_subset (cronJob : CronJob) (activeJobs : List Job) :
    replaced cronJob activeJobs ⊆ activeJobs := by
  unfold replaced
  split_ifs
  · exact List.Subset.refl _
  · exact List.nil_subset _

theorem Reconciled.issued {env : Env} {cronJob : CronJob} {script : Script} {c : Cluster} {r : World}
    (h : Reconciled env cronJob script c r) : Issued env cronJob script c r.calls := by
  cases h with
  | unlisted _ hcalls hclean =>
    rw [hcalls]
    exact .unlisted hclean
  | failed _ hcalls hclean =>
    rw [hcalls]
    exact .failed _ hclean
  | idle hclean _ _ _ attempts hcalls =>
    rw [hcalls, ← List.append_nil (_ ++ _)]
    exact .cleaned hclean attempts (by simp [Deletes])
  | due hclean hdue _ _ attempts hcalls started =>
    cases started with
    | given_up _ deletes hcalls' =>
      rw [hcalls', hcalls]
      exact .cleaned hclean attempts (deletes.mono (replaced_subset _ _))
    | tried _ _ deletes succeed construct _ hcalls' =>
      rw [hcalls', hcalls, ← List.append_assoc]
      exact .created hclean hdue attempts (deletes.mono (replaced_subset _ _)) succeed construct

theorem reconcile_issued (env : Env) (cronJob : CronJob) (script : Script) (c : Cluster) :
    Issued env cronJob script c (reconcile env cronJob script ⟨c, []⟩).2.calls :=
  (reconcile_spec env cronJob script c).issued

end CronJobController

end SideProjects
