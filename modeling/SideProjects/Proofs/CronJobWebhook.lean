import SideProjects.CronJobWebhook
import SideProjects.Proofs.CronJobConcurrency

/-!
# Names of Jobs

The webhook leaves room for a dash and ten digits behind the name of a CronJob, and that is what the
controller puts there. Digits are no dashes, so the last dash of a Job's name tells where the name of
its CronJob ends (`eq_of_append_cons`).
-/

namespace SideProjects

namespace CronJobWebhook

open CronJobController

/-! ## Admission -/

/-- A CronJob is accepted if its name leaves room and its schedule can be parsed. -/
theorem validateCronJob_ok_iff {env : Env} {cronJob : CronJob} :
    validateCronJob env cronJob = .ok () ↔
      validateCronJobName cronJob = none ∧ ∃ next, env.parseStandard cronJob.schedule = .ok next := by
  unfold validateCronJob validateCronJobSpec validateScheduleFormat
  rcases validateCronJobName cronJob with _ | err <;>
    rcases env.parseStandard cronJob.schedule with err' | next <;> simp

theorem applyDefaults_idem (d : CronJobCustomDefaulter) (cronJob : CronJob) :
    d.applyDefaults (d.applyDefaults cronJob) = d.applyDefaults cronJob := by
  unfold CronJobCustomDefaulter.applyDefaults
  simp only [Option.getD_some]
  split_ifs <;> rfl

/-- What gets past the webhook leaves nothing open that the controller asks for. -/
theorem admitted {env : Env} {obj : Obj} {cronJob : CronJob}
    (hdefault : CronJobCustomDefaulter.registered.default obj = .ok cronJob)
    (hcreate : validateCreate env (.cronJob cronJob) = .ok ()) :
    validateCronJobName cronJob = none ∧ (∃ next, env.parseStandard cronJob.schedule = .ok next) ∧
      (∃ s, cronJob.successfulJobsHistoryLimit = some s) ∧
      (∃ f, cronJob.failedJobsHistoryLimit = some f) ∧ (∃ b, cronJob.suspend = some b) ∧
      cronJob.concurrencyPolicy ≠ .other "" := by
  obtain ⟨hname, hparse⟩ := validateCronJob_ok_iff.mp hcreate
  cases obj with
  | other type => cases hdefault
  | cronJob sent =>
    cases hdefault
    refine ⟨hname, hparse, ⟨_, rfl⟩, ⟨_, rfl⟩, ⟨_, rfl⟩, ?_⟩
    show (if sent.concurrencyPolicy = .other "" then _ else _) ≠ _
    split_ifs with hempty
    · simp [CronJobCustomDefaulter.registered]
    · exact hempty

/-! ## Names -/

/-- Lists of which the last `x` is at a known place can be taken apart there. -/
theorem eq_of_append_cons {α : Type*} {x : α} {a b a' b' : List α} (h : a ++ x :: b = a' ++ x :: b')
    (hb : x ∉ b) (hb' : x ∉ b') : a = a' ∧ b = b' := by
  rcases List.append_eq_append_iff.mp h with ⟨c, rfl, hc⟩ | ⟨c, rfl, hc⟩
  · rcases c with _ | ⟨y, c⟩
    · exact ⟨(List.append_nil a).symm, (List.cons.inj hc).2⟩
    · obtain ⟨-, rfl⟩ := List.cons.inj hc
      exact absurd (List.mem_append_right c List.mem_cons_self) hb
  · rcases c with _ | ⟨y, c⟩
    · exact ⟨List.append_nil a', (List.cons.inj hc).2.symm⟩
    · obtain ⟨-, rfl⟩ := List.cons.inj hc
      exact absurd (List.mem_append_right c List.mem_cons_self) hb'

theorem dash_notMem_toDigits (n : ℕ) : '-' ∉ Nat.toDigits 10 n := fun h =>
  absurd (Nat.isDigit_of_mem_toDigits (by decide) (by decide) h) (by decide)

theorem utf8ByteSize_ofList_digits : ∀ {cs : List Char}, (∀ c ∈ cs, c.isDigit) →
    (String.ofList cs).utf8ByteSize = cs.length
  | [], _ => rfl
  | c :: cs, h => by
    have hc : c.utf8Size = 1 := by
      have := h c List.mem_cons_self
      simp only [Char.isDigit, Bool.and_eq_true, decide_eq_true_eq] at this
      exact Char.utf8Size_eq_one_iff.mpr (UInt32.le_trans this.2 (by decide : (57 : UInt32) ≤ 127))
    rw [show c :: cs = [c] ++ cs from rfl, String.ofList_append, String.utf8ByteSize_append,
      utf8ByteSize_ofList_digits fun c' hc' => h c' (List.mem_cons_of_mem c hc'), List.length_append,
      ← String.singleton_eq_ofList, String.utf8ByteSize_singleton, hc]
    rfl

/-- The name of a Job, and how much longer than that of its CronJob it is. -/
theorem name_construct {env : Env} {cronJob : CronJob} {t : Time} {job : Job}
    (h : constructJobForCronJob env cronJob t = .ok job) (ht : 0 ≤ Time.unix t) :
    job.name = cronJob.name ++ "-" ++ String.ofList (Nat.toDigits 10 (Time.unix t).toNat) := by
  unfold constructJobForCronJob at h
  dsimp only at h
  split at h
  · cases h
  · cases h
    rw [Int.toString_eq_repr, Int.repr_eq_if, if_pos ht, Nat.repr_eq_ofList_toDigits]

theorem utf8ByteSize_construct {env : Env} {cronJob : CronJob} {t : Time} {job : Job}
    (h : constructJobForCronJob env cronJob t = .ok job) (ht : 0 ≤ Time.unix t)
    (ht' : Time.unix t < 10 ^ 10) (hname : validateCronJobName cronJob = none) :
    job.name.utf8ByteSize ≤ 63 := by
  have hlen : cronJob.name.utf8ByteSize ≤ 52 := by
    unfold validateCronJobName dns1035LabelMaxLength at hname
    split_ifs at hname with hlong
    exact not_lt.mp hlong
  have hdigits : (Nat.toDigits 10 (Time.unix t).toNat).length ≤ 10 :=
    (Nat.length_toDigits_le_iff (by decide) (by decide)).mpr ((Int.toNat_lt ht).mpr ht')
  rw [name_construct h ht, String.utf8ByteSize_append, String.utf8ByteSize_append,
    utf8ByteSize_ofList_digits fun c hc => Nat.isDigit_of_mem_toDigits (by decide) (by decide) hc]
  have hdash : "-".utf8ByteSize = 1 := rfl
  omega

/-- The Jobs of CronJobs whose names the webhook accepts have names that fit, and no two of them
share a name unless they are of CronJobs of one name and of one second. -/
theorem jobName_unique {env : Env} {cronJob₁ cronJob₂ : CronJob} {t₁ t₂ : Time} {job₁ job₂ : Job}
    (hname₁ : validateCronJobName cronJob₁ = none) (hname₂ : validateCronJobName cronJob₂ = none)
    (ht₁ : 0 ≤ Time.unix t₁ ∧ Time.unix t₁ < 10 ^ 10)
    (ht₂ : 0 ≤ Time.unix t₂ ∧ Time.unix t₂ < 10 ^ 10)
    (h₁ : constructJobForCronJob env cronJob₁ t₁ = .ok job₁)
    (h₂ : constructJobForCronJob env cronJob₂ t₂ = .ok job₂) :
    job₁.name.utf8ByteSize ≤ 63 ∧ job₂.name.utf8ByteSize ≤ 63 ∧
      (job₁.name = job₂.name →
        cronJob₁.name = cronJob₂.name ∧ Time.unix t₁ = Time.unix t₂) := by
  refine ⟨utf8ByteSize_construct h₁ ht₁.1 ht₁.2 hname₁, utf8ByteSize_construct h₂ ht₂.1 ht₂.2 hname₂,
    fun heq => ?_⟩
  rw [name_construct h₁ ht₁.1, name_construct h₂ ht₂.1] at heq
  have hlist := congrArg String.toList heq
  simp only [String.toList_append, String.toList_ofList, List.append_assoc,
    show "-".toList = ['-'] from rfl, List.singleton_append] at hlist
  obtain ⟨hname, hdigits⟩ :=
    eq_of_append_cons hlist (dash_notMem_toDigits _) (dash_notMem_toDigits _)
  refine ⟨String.toList_inj.mp hname, ?_⟩
  have hnat : (Time.unix t₁).toNat = (Time.unix t₂).toNat := by
    rw [← @Nat.ofDigitChars_toDigits 10 (Time.unix t₁).toNat (by decide) (by decide), hdigits,
      Nat.ofDigitChars_toDigits (by decide) (by decide)]
  rw [← Int.toNat_of_nonneg ht₁.1, ← Int.toNat_of_nonneg ht₂.1, hnat]

/-- The Job of a CronJob `report-1`, and that of a CronJob `report` whose second starts with a 1. -/
theorem jobName_unique_dashes :
    let dashed := { report .allowConcurrent none with name := "report-1" }
    ∃ job₁ job₂, constructJobForCronJob hourly dashed newYear = .ok job₁ ∧
      constructJobForCronJob hourly (report .allowConcurrent none) newYear = .ok job₂ ∧
      job₁.name = "report-1-1735689600" ∧ job₂.name = "report-1735689600" ∧
      job₁.name.utf8ByteSize ≤ 63 ∧ job₂.name.utf8ByteSize ≤ 63 :=
  have h := @jobName_unique hourly { report .allowConcurrent none with name := "report-1" }
    (report .allowConcurrent none) newYear newYear _ _ rfl rfl (by decide) (by decide) rfl rfl
  ⟨_, _, rfl, rfl, rfl, rfl, h.1, h.2.1⟩

end CronJobWebhook

end SideProjects
