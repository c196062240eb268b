import SideProjects.CronJobController

/-!
# The CronJob webhook

`kubebuilder-tutorial/internal/webhook/v1/cronjob_webhook.go`. Before a CronJob is stored, the fields
it leaves open are given defaults, and its name and its schedule are checked.
-/

namespace SideProjects

namespace CronJobWebhook

open CronJobController

/-- An object that is sent for admission, with its type if it is no CronJob. -/
inductive Obj
  | cronJob (cronJob : CronJob)
  | other (type : String)

/-- What `field.Invalid` gives. -/
structure FieldError where
  field : String
  value : String
  detail : String
  deriving DecidableEq, Repr

inductive AdmissionError
  | unexpected (message : String)
  | invalid (group kind name : String) (allErrs : List FieldError)
  deriving DecidableEq, Repr

/-! ## Defaults -/

structure CronJobCustomDefaulter where
  defaultConcurrencyPolicy : ConcurrencyPolicy
  defaultSuspend : Bool
  defaultSuccessfulJobsHistoryLimit : Int32
  defaultFailedJobsHistoryLimit : Int32

/-- The one `SetupCronJobWebhookWithManager` registers. -/
def CronJobCustomDefaulter.registered : CronJobCustomDefaulter := ⟨.allowConcurrent, false, 3, 1⟩

def CronJobCustomDefaulter.applyDefaults (d : CronJobCustomDefaulter) (cronJob : CronJob) : CronJob :=
  { cronJob with
    concurrencyPolicy :=
      if cronJob.concurrencyPolicy = .other "" then d.defaultConcurrencyPolicy
      else cronJob.concurrencyPolicy
    suspend := some (cronJob.suspend.getD d.defaultSuspend)
    successfulJobsHistoryLimit :=
      some (cronJob.successfulJobsHistoryLimit.getD d.defaultSuccessfulJobsHistoryLimit)
    failedJobsHistoryLimit :=
      some (cronJob.failedJobsHistoryLimit.getD d.defaultFailedJobsHistoryLimit) }

def CronJobCustomDefaulter.default (d : CronJobCustomDefaulter) : Obj → Except AdmissionError CronJob
  | .cronJob cronJob => .ok (d.applyDefaults cronJob)
  | .other type => .error (.unexpected ("expected an CronJob object but got " ++ type))

/-! ## Validation -/

/-- `validationutils.DNS1035LabelMaxLength`. -/
def dns1035LabelMaxLength : ℕ := 63

def validateCronJobName (cronJob : CronJob) : Option FieldError :=
  if cronJob.name.utf8ByteSize > dns1035LabelMaxLength - 11 then
    some ⟨"metadata.name", cronJob.name, "must be no more than 52 characters"⟩
  else none

def validateScheduleFormat (env : Env) (schedule fldPath : String) : Option FieldError :=
  match env.parseStandard schedule with
  | .error err => some ⟨fldPath, schedule, err⟩
  | .ok _ => none

def validateCronJobSpec (env : Env) (cronJob : CronJob) : Option FieldError :=
  validateScheduleFormat env cronJob.schedule "spec.schedule"

def validateCronJob (env : Env) (cronJob : CronJob) : Except AdmissionError Unit :=
  let allErrs := (validateCronJobName cronJob).toList ++ (validateCronJobSpec env cronJob).toList
  if allErrs.length = 0 then .ok ()
  else .error (.invalid "batch.tutorial.kubebuilder.io" "CronJob" cronJob.name allErrs)

def validateCreate (env : Env) : Obj → Except AdmissionError Unit
  | .cronJob cronJob => validateCronJob env cronJob
  | .other type => .error (.unexpected ("expected a CronJob object but got " ++ type))

/-- Only the new object is looked at. -/
def validateUpdate (env : Env) (_oldObj : Obj) : Obj → Except AdmissionError Unit
  | .cronJob cronJob => validateCronJob env cronJob
  | .other type =>
    .error (.unexpected ("expected a CronJob object for the newObj but got " ++ type))

def validateDelete : Obj → Except AdmissionError Unit
  | .cronJob _ => .ok ()
  | .other type => .error (.unexpected ("expected a CronJob object but got " ++ type))

end CronJobWebhook

end SideProjects
