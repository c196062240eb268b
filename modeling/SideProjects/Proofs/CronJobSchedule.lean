import Mathlib.Data.Int.ConditionallyCompleteOrder
import Mathlib.Data.Int.Interval
import Mathlib.Data.Set.Card
import Mathlib.Order.Bounds.Basic
import Mathlib.Order.WithBot
import SideProjects.Proofs.CronJobConcurrency

/-!
# Which run is due, and which Jobs are kept

With `A` the activation times, `Next` gives the least one after a time, so the loop of
`getNextSchedule` goes through the missed ones and stops at the greatest, or gives up after 100
(`lastMissedRun_cases`). A run that is due is therefore the latest activation there is, and later
than every scheduled time among the children (`dueRun_spec`).

The clean-up compares 32-bit numbers that may wrap around, but never deletes more than the surplus
(`lt_of_int32`). A finished child stays if fewer than the limit of its kind did not start before it
(`not_named_of_spared`).
-/

namespace SideProjects

namespace CronJobController

/-! ## The schedule -/

section Schedule

variable {A : Set Time} {next : Time → Time}

/-- The activations after `e` and not after `now`. -/
def missedRuns (A : Set Time) (e now : Time) : Set Time := A ∩ Set.Ioc e now

theorem missedRuns_finite (A : Set Time) (e now : Time) : (missedRuns A e now).Finite :=
  (Set.finite_Ioc e now).subset Set.inter_subset_right

/-- The first missed run is the next activation, and the others come after it. -/
theorem missedRuns_eq_insert (hnext : ∀ t, IsLeast {a | a ∈ A ∧ t < a} (next t)) {e now : Time}
    (hle : next e ≤ now) : missedRuns A e now = insert (next e) (missedRuns A (next e) now) := by
  ext a
  constructor
  · rintro ⟨ha, hea, han⟩
    rcases eq_or_lt_of_le ((hnext e).2 ⟨ha, hea⟩) with heq | hlt
    · exact .inl heq.symm
    · exact .inr ⟨ha, hlt, han⟩
  · rintro (rfl | ⟨ha, hea, han⟩)
    · exact ⟨(hnext e).1.1, (hnext e).1.2, hle⟩
    · exact ⟨ha, lt_trans (hnext e).1.2 hea, han⟩

theorem missedRuns_eq_empty (hnext : ∀ t, IsLeast {a | a ∈ A ∧ t < a} (next t)) {e now : Time}
    (hlt : now < next e) : missedRuns A e now = ∅ := by
  refine Set.eq_empty_iff_forall_notMem.mpr ?_
  rintro a ⟨ha, hea, han⟩
  exact absurd (lt_of_lt_of_le hlt ((hnext e).2 ⟨ha, hea⟩)) (not_lt.mpr han)

/-- The loop from `e` on: it finds the latest missed run, or keeps the one it had if there is none,
unless there are more than it may find. -/
theorem lastMissedRun_cases (hnext : ∀ t, IsLeast {a | a ∈ A ∧ t < a} (next t)) {now : Time} :
    ∀ (left : ℕ) (lastMissed e : Time),
      (missedRuns A e now).ncard ≤ left ∧
          (∃ missed, lastMissedRun next now left lastMissed (next e) = some missed ∧
            (missedRuns A e now = ∅ ∧ missed = lastMissed ∨ IsGreatest (missedRuns A e now) missed)) ∨
        left < (missedRuns A e now).ncard ∧
          lastMissedRun next now left lastMissed (next e) = none
  | left, lastMissed, e => by
    unfold lastMissedRun
    split_ifs with hlate
    · have hempty := missedRuns_eq_empty hnext hlate
      rw [hempty, Set.ncard_empty]
      exact .inl ⟨Nat.zero_le left, lastMissed, rfl, .inl ⟨rfl, rfl⟩⟩
    · have hins := missedRuns_eq_insert hnext (not_lt.mp hlate)
      have hcard : (missedRuns A e now).ncard = (missedRuns A (next e) now).ncard + 1 := by
        rw [hins, Set.ncard_insert_of_notMem (fun h => lt_irrefl _ h.2.1) (missedRuns_finite _ _ _)]
      cases left with
      | zero => exact .inr ⟨by omega, rfl⟩
      | succ left =>
        rcases lastMissedRun_cases hnext left (next e) (next e) with
          ⟨hle, missed, hm, hcase⟩ | ⟨hlt, hm⟩
        · refine .inl ⟨by omega, missed, hm, .inr ?_⟩
          rw [hins]
          rcases hcase with ⟨hempty, rfl⟩ | hgreatest
          · rw [hempty]
            exact ⟨.inl rfl, by rintro a (rfl | ha); exacts [le_refl _, absurd ha id]⟩
          · refine ⟨.inr hgreatest.1, ?_⟩
            rintro a (rfl | ha)
            · exact le_of_lt hgreatest.1.2.1
            · exact hgreatest.2 ha
        · exact .inr ⟨by omega, hm⟩

theorem le_earliestTime (cronJob : CronJob) (lastScheduleTime : Option Time) (now : Time) :
    lastScheduleTime.getD cronJob.creationTimestamp ≤ earliestTime cronJob lastScheduleTime now := by
  unfold earliestTime
  dsimp only
  split
  · exact le_refl _
  · split_ifs with h
    · exact le_of_lt h
    · exact le_refl _

theorem getNextSchedule_eq {env : Env} {cronJob : CronJob}
    (hparse : env.parseStandard cronJob.schedule = .ok next) (lastScheduleTime : Option Time)
    (now : Time) :
    getNextSchedule env cronJob lastScheduleTime now =
      if now < earliestTime cronJob lastScheduleTime now then .ok (0, next now)
      else (lastMissedRun next now 100 0 (next (earliestTime cronJob lastScheduleTime now))).elim
        (.error .tooManyMissed) fun lastMissed => .ok (lastMissed, next now) := by
  unfold getNextSchedule
  rw [hparse]
  dsimp only
  cases lastMissedRun next now 100 0 (next (earliestTime cronJob lastScheduleTime now)) <;> rfl

/-- A run that is due is the latest activation, and later than the last scheduled time, or the
creation of the CronJob if there is none. -/
theorem dueRun_spec {env : Env} {cronJob : CronJob}
    (hnext : ∀ next, env.parseStandard cronJob.schedule = .ok next →
      ∀ t, IsLeast {a | a ∈ A ∧ t < a} (next t))
    {lastScheduleTime : Option Time} {now later missedRun : Time}
    (h : dueRun env cronJob lastScheduleTime now later = some missedRun) :
    missedRun ∈ A ∧ missedRun ≤ now ∧ (∀ a ∈ A, a ≤ now → a ≤ missedRun) ∧
      lastScheduleTime.getD cronJob.creationTimestamp < missedRun := by
  unfold dueRun at h
  split_ifs at h with hs
  rcases hp : env.parseStandard cronJob.schedule with err | next
  · simp [getNextSchedule, hp] at h
  replace hnext := hnext next hp
  rw [getNextSchedule_eq hp] at h
  split_ifs at h with he
  · simp [Time.isZero] at h
  rcases hm : lastMissedRun next now 100 0 (next (earliestTime cronJob lastScheduleTime now))
    with _ | missed <;> rw [hm] at h
  · cases h
  dsimp only [Option.elim] at h
  split_ifs at h with hz
  cases h
  rcases lastMissedRun_cases hnext 100 0 (earliestTime cronJob lastScheduleTime now) with
    ⟨-, missed, hm', hcase⟩ | ⟨-, hm'⟩ <;> rw [hm] at hm'
  swap
  · cases hm'
  obtain rfl := Option.some.inj hm'
  rcases hcase with ⟨-, rfl⟩ | ⟨⟨hA, hlt, hnow⟩, hgreatest⟩
  · exact absurd (.inl rfl) hz
  · refine ⟨hA, hnow, fun a ha han => ?_, lt_of_le_of_lt (le_earliestTime _ _ now) hlt⟩
    rcases le_or_gt a (earliestTime cronJob lastScheduleTime now) with hle | hgt
    · exact le_of_lt (lt_of_le_of_lt hle hlt)
    · exact hgreatest ⟨ha, hgt, han⟩

/-- Between the earliest time and now, `getNextSchedule` finds the latest activation if there is one
and there are at most 100, reports an error if there are more, and gives the next one after now. -/
theorem getNextSchedule_finds {env : Env} {cronJob : CronJob}
    (hparse : env.parseStandard cronJob.schedule = .ok next)
    (hnext : ∀ t, IsLeast {a | a ∈ A ∧ t < a} (next t)) (lastScheduleTime : Option Time)
    (now : Time) :
    let e := earliestTime cronJob lastScheduleTime now
    let r := getNextSchedule env cronJob lastScheduleTime now
    (now < e → r = .ok (0, next now)) ∧
      (e ≤ now → (missedRuns A e now).ncard ≤ 100 → ∃ missed, r = .ok (missed, next now) ∧
        (missedRuns A e now = ∅ ∧ missed = 0 ∨ IsGreatest (missedRuns A e now) missed)) ∧
      IsLeast {a | a ∈ A ∧ now < a} (next now) ∧
      (r = .error .tooManyMissed ↔ 100 < (missedRuns A e now).ncard) := by
  intro e r
  have hr : r = _ := getNextSchedule_eq hparse lastScheduleTime now
  rcases lt_or_ge now e with hlate | hearly
  · have hempty : missedRuns A e now = ∅ := by
      rw [missedRuns, Set.Ioc_eq_empty (not_lt.mpr (le_of_lt hlate)), Set.inter_empty]
    rw [if_pos hlate] at hr
    rw [hempty, Set.ncard_empty]
    exact ⟨fun _ => hr, fun h => absurd h (not_le.mpr hlate), hnext now, by simp [hr]⟩
  · rw [if_neg (not_lt.mpr hearly)] at hr
    rcases lastMissedRun_cases hnext 100 0 e with ⟨hle, missed, hm, hcase⟩ | ⟨hlt, hm⟩ <;>
      rw [hm] at hr <;> dsimp only [Option.elim] at hr
    · refine ⟨fun h => absurd h (not_lt.mpr hearly), fun _ _ => ⟨missed, hr, hcase⟩, hnext now, ?_⟩
      simp only [hr, reduceCtorEq, false_iff]
      omega
    · refine ⟨fun h => absurd h (not_lt.mpr hearly), fun _ hle => ?_, hnext now, ?_⟩
      · omega
      · simpa [hr] using hlt

end Schedule

/-- The full hours. -/
def fullHours : Set Time := {t | ∃ k : Int, t = k * hour}

theorem isLeast_hourly (t : Time) :
    IsLeast {a | a ∈ fullHours ∧ t < a} ((t / hour + 1) * hour) := by
  have hpos : (0 : Int) < hour := by decide
  refine ⟨⟨⟨_, rfl⟩, Int.lt_ediv_add_one_mul_self t hpos⟩, ?_⟩
  rintro _ ⟨⟨k, rfl⟩, hk⟩
  exact Int.mul_le_mul_of_nonneg_right (Int.ediv_lt_of_lt_mul hpos hk) (le_of_lt hpos)

/-- At midnight the run of midnight is the one that is missed. -/
theorem getNextSchedule_finds_hourly :
    let r := getNextSchedule hourly (report .allowConcurrent none) none newYear
    r = .ok (newYear, newYear + hour) ∧
      IsLeast {a | a ∈ fullHours ∧ newYear < a} ((newYear / hour + 1) * hour) ∧
      (r = .error .tooManyMissed ↔
        100 < (missedRuns fullHours (newYear - 60000000000) newYear).ncard) :=
  ⟨rfl, (getNextSchedule_finds rfl isLeast_hourly none newYear).2.2⟩

/-! ## Scheduled times -/

/-- The scheduled time a Job carries. -/
def scheduledAt (env : Env) (job : Job) : Option Time :=
  (getScheduledTimeForJob env job).toOption.join

theorem Became.scheduledAt_eq {old new : Job} (h : Became old new) (env : Env) :
    scheduledAt env new = scheduledAt env old := by
  unfold scheduledAt getScheduledTimeForJob
  rw [h.annotations]

theorem note_mostRecentTime (env : Env) (c : Children) (job : Job) {t : Time}
    (ht : c.mostRecentTime = some t ∨ scheduledAt env job = some t) :
    ∃ m, (c.note env job).mostRecentTime = some m ∧ t ≤ m := by
  unfold scheduledAt at ht
  unfold Children.note
  generalize getScheduledTimeForJob env job = scheduled at ht ⊢
  rcases scheduled with err | _ | time
  · exact ⟨t, ht.resolve_right (by simp [Except.toOption]), le_refl _⟩
  · exact ⟨t, ht.resolve_right (by simp [Except.toOption]), le_refl _⟩
  · replace ht : c.mostRecentTime = some t ∨ time = t := by simpa [Except.toOption] using ht
    rcases hm : c.mostRecentTime with _ | m <;> rw [hm] at ht
    · exact ⟨time, rfl, le_of_eq (ht.resolve_left (by simp)).symm⟩
    · simp only [Option.some.injEq] at ht
      dsimp only
      split_ifs with hlt
      · refine ⟨time, rfl, ?_⟩
        rcases ht with rfl | rfl
        · exact le_of_lt hlt
        · exact le_refl _
      · refine ⟨m, hm, ?_⟩
        rcases ht with rfl | rfl
        · exact le_refl _
        · exact not_lt.mp hlt

theorem put_mostRecentTime (c : Children) (job : Job) :
    (c.put job).mostRecentTime = c.mostRecentTime := by
  unfold Children.put
  split <;> rfl

/-- `mostRecentTime` is at least every scheduled time among the children. -/
theorem classify_mostRecentTime {env : Env} {childJobs : List Job} {job : Job}
    (hjob : job ∈ childJobs) {t : Time} (ht : scheduledAt env job = some t) :
    ∃ m, (classify env childJobs).mostRecentTime = some m ∧ t ≤ m := by
  have key : ∀ (jobs : List Job) (c : Children) (t : Time),
      (c.mostRecentTime = some t ∨ ∃ job ∈ jobs, scheduledAt env job = some t) →
      ∃ m, (jobs.foldl (fun c job => (c.put job).note env job) c).mostRecentTime = some m ∧
        t ≤ m := by
    intro jobs
    induction jobs with
    | nil => exact fun c t h => ⟨t, h.resolve_right (by simp), le_refl _⟩
    | cons job jobs ih =>
      intro c t h
      have head : (c.put job).mostRecentTime = some t ∨ scheduledAt env job = some t →
          ∃ m, ((job :: jobs).foldl (fun c job => (c.put job).note env job) c).mostRecentTime =
            some m ∧ t ≤ m := by
        intro h
        obtain ⟨m, hm, hle⟩ := note_mostRecentTime env (c.put job) job h
        obtain ⟨m', hm', hle'⟩ := ih ((c.put job).note env job) m (.inl hm)
        exact ⟨m', hm', le_trans hle hle'⟩
      rcases h with h | ⟨job', hjob', h⟩
      · exact head (.inl (by rwa [put_mostRecentTime]))
      · rcases List.mem_cons.mp hjob' with rfl | hjob'
        · exact head (.inr h)
        · exact ih _ t (.inr ⟨job', hjob', h⟩)
  exact key childJobs _ t (.inr ⟨job, hjob, ht⟩)

/-! ## The clean-up -/

/-- When a Job started, before all times if it did not. -/
def started (job : Job) : WithBot Time := job.status.startTime

theorem startedBefore_iff {a b : Job} : startedBefore a b = true ↔ started a < started b := by
  unfold startedBefore started
  rcases a.status.startTime with _ | s <;> rcases b.status.startTime with _ | t
  · exact iff_of_false (by simp) (lt_irrefl _)
  · exact iff_of_true rfl (WithBot.bot_lt_coe t)
  · exact iff_of_false (by simp) not_lt_bot
  · exact decide_eq_true_iff.trans WithBot.coe_lt_coe.symm

theorem startedBefore_eq_false_iff {a b : Job} :
    startedBefore a b = false ↔ started b ≤ started a := by
  rw [← not_lt, ← startedBefore_iff, Bool.not_eq_true]

theorem startedBefore_strictWeak : StrictWeak startedBefore where
  asymm a b h := startedBefore_eq_false_iff.mpr (le_of_lt (startedBefore_iff.mp h))
  split a b c h := by
    rw [startedBefore_iff] at h ⊢
    rw [startedBefore_iff]
    rcases lt_or_ge (started a) (started c) with hac | hca
    · exact .inl hac
    · exact .inr (lt_of_le_of_lt hca h)

/-- The 32-bit comparison of the clean-up passes for no more Jobs than there are beyond the limit. -/
theorem lt_of_int32 {limit : Int32} (hlimit : 0 ≤ limit.toInt) {len k : ℕ} (hk : k < len)
    (h : ∀ i ≤ k, Int32.ofNat i < Int32.ofNat len - limit) : (k : Int) < len - limit.toInt := by
  have hmax := limit.toInt_lt
  have h' : ∀ i ≤ k, (i : Int).bmod (2 ^ 32) < ((len : Int) - limit.toInt).bmod (2 ^ 32) := by
    intro i hi
    have := h i hi
    rw [Int32.lt_iff_toInt_lt, Int32.toInt_sub, Int32.toInt_ofNat', Int32.toInt_ofNat'] at this
    rwa [show Int32.size = 2 ^ 32 from rfl, Int.bmod_sub_bmod] at this
  by_contra hge
  rcases lt_or_ge ((len : Int) - limit.toInt) 0 with hneg | hpos
  · -- The limit is above `len`, and the difference fits 32 bits.
    have h₀ := h' 0 (Nat.zero_le k)
    rw [Int.bmod_def, Int.bmod_def] at h₀
    omega
  · -- The comparison would have failed where the index agrees with the difference.
    have hi := h' (((len : Int) - limit.toInt) % 2 ^ 32).toNat (by omega)
    rw [Int.toNat_of_nonneg (by omega), show (2 : Int) ^ 32 = ((2 ^ 32 : ℕ) : Int) from rfl,
      Int.emod_bmod] at hi
    omega

/-- The history limit for Jobs that finished in a way. -/
def CronJob.historyLimit (cronJob : CronJob) : JobConditionType → Option Int32
  | .failed => cronJob.failedJobsHistoryLimit
  | .complete => cronJob.successfulJobsHistoryLimit
  | .other _ => none

/-- The other children that finished as `job` did and did not start before it. -/
def notBefore (childJobs : List Job) (type : JobConditionType) (job : Job) : List Job :=
  (childJobs.filter (finishedAs type)).filter fun other =>
    other.name != job.name && !startedBefore other job

/-- The clean-up leaves `job`: it is unfinished, or there is no limit, or the limit is greater than
the number of the others that finished as it did and did not start before it. -/
def Spared (cronJob : CronJob) (childJobs : List Job) (job : Job) : Prop :=
  ∀ type, isJobFinished job = some type → ∀ limit, cronJob.historyLimit type = some limit →
    ((notBefore childJobs type job).length : Int) < limit.toInt

/-- All children are spared if there are no more of them than the limits. -/
theorem spared_of_length_le {cronJob : CronJob} {childJobs : List Job} {job : Job}
    (hjob : job ∈ childJobs) (h : ∀ type limit, cronJob.historyLimit type = some limit →
      (childJobs.length : Int) ≤ limit.toInt) : Spared cronJob childJobs job := by
  intro type _ limit hlimit
  refine lt_of_lt_of_le (Int.ofNat_lt.mpr ?_) (h type limit hlimit)
  rw [notBefore, List.filter_filter]
  exact List.length_filter_lt_length_iff_exists.mpr ⟨job, hjob, by simp⟩

/-- The oldest Jobs of one kind are deleted, and of those behind a deleted one the limit is left. -/
theorem limit_le_of_mem_doomed {env : Env} {limit : Int32} (hlimit : 0 ≤ limit.toInt)
    {jobs : List Job} {job : Job} (h : job ∈ doomed env (some limit) jobs) :
    ∃ later, (∃ earlier, (earlier ++ job :: later).Perm jobs) ∧ limit.toInt ≤ later.length ∧
      ∀ other ∈ later, startedBefore other job = false := by
  have hsorted := env.sortSlice_sorted startedBefore jobs startedBefore_strictWeak
  have hperm := env.sortSlice_perm startedBefore jobs
  unfold doomed at h
  dsimp only at h
  generalize env.sortSlice startedBefore jobs = sorted at hsorted hperm h
  obtain ⟨⟨kept, hkept⟩, hlt⟩ := surplus_front limit sorted.length 0 sorted
  obtain ⟨earlier, rest, hsplit⟩ := List.append_of_mem h
  rw [hsplit] at hkept hlt
  rw [List.append_assoc, List.cons_append] at hkept
  refine ⟨rest ++ kept, ⟨earlier, hkept ▸ hperm⟩, ?_, fun other ho => ?_⟩
  · have hlen : sorted.length = earlier.length + (rest ++ kept).length + 1 := by
      rw [← hkept, List.length_append, List.length_cons, Nat.add_assoc]
    have hk : (earlier.length : Int) < sorted.length - limit.toInt := by
      refine lt_of_int32 hlimit (by omega) fun i hi => ?_
      have := hlt i (by rw [List.length_append, List.length_cons]; omega)
      rwa [Nat.zero_add] at this
    omega
  · rw [← hkept, List.pairwise_append] at hsorted
    exact (List.pairwise_cons.mp hsorted.2.1).1 other ho

theorem not_named_of_spared {env : Env} {cronJob : CronJob} {childJobs : List Job} {job : Job}
    (hunique : (childJobs.map Job.name).Nodup) (hjob : job ∈ childJobs)
    (h : Spared cronJob childJobs job) :
    ¬ Named (oldJobs env cronJob (classify env childJobs)) job.name := by
  rintro ⟨old, hold, hname⟩
  have hkind : ∃ type, old ∈ doomed env (cronJob.historyLimit type)
      (childJobs.filter (finishedAs type)) := by
    unfold oldJobs at hold
    rw [classify_failedJobs, classify_successfulJobs] at hold
    rcases List.mem_append.mp hold with hold | hold
    · exact ⟨.failed, hold⟩
    · exact ⟨.complete, hold⟩
  obtain ⟨type, hdoomed⟩ := hkind
  have hmem := List.mem_filter.mp (mem_of_mem_doomed hdoomed)
  obtain rfl : old = job := List.inj_on_of_nodup_map hunique hmem.1 hjob hname
  rcases hlimit : cronJob.historyLimit type with _ | limit <;> rw [hlimit] at hdoomed
  · simp [doomed] at hdoomed
  have hfew := h type (by simpa [finishedAs] using hmem.2) limit hlimit
  obtain ⟨later, ⟨earlier, hperm⟩, hmany, hlater⟩ :=
    limit_le_of_mem_doomed (le_of_lt (lt_of_le_of_lt (Int.natCast_nonneg _) hfew)) hdoomed
  -- Everything behind `old` in the order of the clean-up is counted by `notBefore`.
  have hnames : ((earlier ++ old :: later).map Job.name).Nodup :=
    (hperm.map _).nodup_iff.mpr (hunique.sublist (List.filter_sublist.map _))
  have hcounted : ∀ other ∈ later, (other.name != old.name && !startedBefore other old) = true := by
    intro other ho
    rw [List.map_append, List.map_cons, List.nodup_append, List.nodup_cons] at hnames
    have hne : other.name ≠ old.name := fun he => hnames.2.1.1 (List.mem_map.mpr ⟨other, ho, he⟩)
    simp [hne, hlater other ho]
  have hlen : later.length ≤ (notBefore childJobs type old).length := by
    rw [notBefore, ← (hperm.filter _).length_eq]
    conv_lhs => rw [← List.filter_eq_self.mpr hcounted]
    exact (((List.sublist_cons_self old later).trans
      (List.sublist_append_right earlier _)).filter _).length_le
  omega

end CronJobController

end SideProjects
